import CheatEngine.DoublyLinked
import CheatEngine.TransitionSystem

/-!
# The symbol list

`TSymbolListHandler` keeps its symbols in two search trees, one by name and
one by address, and links those of the address tree to one another.

The trees are ordered multisets.  A tree is given by its data in order; where
the contract of the tree leaves something open (the place of a node among
equal ones, which of several equal nodes is found), the move carries the
choice and the step checks it.  Where the code leaves the contract, by a
search for a key that has been freed or by deleting a node of another tree,
the move carries the outcome and nothing is checked.
-/

namespace CheatEngine
namespace SymbolList

open List DoublyLinked

abbrev Pointer := ℕ

abbrev Text := List UInt8

structure SymbolInfo where
  s : Option Text
  originalstring : Option Text
  module : Option Text
  address : UInt64
  size : ℤ
  extra : Option Pointer
  previous : Option Pointer
  next : Option Pointer
deriving DecidableEq, Repr

def lowercase (text : Text) : Text :=
  text.map fun char => if 65 ≤ char ∧ char ≤ 90 then char + 32 else char

def pchar (text : Text) : Text :=
  text.takeWhile (· ≠ 0)

/-- `strnew` gives `nil` for an empty string. -/
def strnew (text : Text) : Option Text :=
  if text = [] then none else some text

/-- The handler.  `live` is not in the program: it lists the symbols that
have been added and not deleted, with their `skipaddresstostringlookup`. -/
structure Handler where
  heap : Pointer → Option SymbolInfo
  AddressToString : List Pointer
  StringToAddress : List Pointer
  live : List (Pointer × Bool)

namespace Handler

variable (handler : Handler)

def addressOf (symbol : Pointer) : Option UInt64 :=
  (handler.heap symbol).map SymbolInfo.address

/-- The name that `S2ACheck` compares; `nil` counts as empty. -/
def nameOf (symbol : Pointer) : Option Text :=
  (handler.heap symbol).map fun info => info.s.getD []

def previousOf (symbol : Pointer) : Option Pointer :=
  (handler.heap symbol).bind SymbolInfo.previous

def nextOf (symbol : Pointer) : Option Pointer :=
  (handler.heap symbol).bind SymbolInfo.next

def create : Handler :=
  ⟨fun _ => none, [], [], []⟩

end Handler

section

variable {Key : Type*} [LE Key] [DecidableLE Key] [DecidableEq Key]

def addsAt (keyOf : Pointer → Option Key) (tree : List Pointer) (key : Key)
    (place : ℕ) : Bool :=
  (tree.take place).all (fun node => (keyOf node).all (· ≤ key)) &&
    (tree.drop place).all (fun node => (keyOf node).all (key ≤ ·))

def finds (keyOf : Pointer → Option Key) (tree : List Pointer) (key : Key) :
    Option Pointer → Bool
  | none => tree.all fun node => keyOf node ≠ some key
  | some node => decide (node ∈ tree) && decide (keyOf node = some key)

def insertAt (tree : List Pointer) (place : ℕ) (node : Pointer) :
    List Pointer :=
  tree.take place ++ node :: tree.drop place

end

/-! ## The operations -/

def disposeStrings (heap : Pointer → Option SymbolInfo) (symbol : Pointer) :
    Pointer → Option SymbolInfo :=
  Function.update heap symbol
    ((heap symbol).map fun info =>
      { info with s := none, originalstring := none, module := none })

def setNext (heap : Pointer → Option SymbolInfo) (symbol : Option Pointer)
    (next : Pointer) : Pointer → Option SymbolInfo :=
  match symbol with
  | none => heap
  | some symbol =>
    Function.update heap symbol
      ((heap symbol).map fun info => { info with next := some next })

def setPrevious (heap : Pointer → Option SymbolInfo)
    (symbol : Option Pointer) (previous : Pointer) :
    Pointer → Option SymbolInfo :=
  match symbol with
  | none => heap
  | some symbol =>
    Function.update heap symbol
      ((heap symbol).map fun info =>
        { info with previous := some previous })

structure NewSymbol where
  module : Text
  searchkey : Text
  address : UInt64
  size : ℤ
  skipaddresstostringlookup : Bool
  extraData : Option Pointer
deriving DecidableEq, Repr

/-- The record is allocated without being cleared, so that its links are
what the memory held before. -/
def NewSymbol.info (new : NewSymbol) (previous next : Option Pointer) :
    SymbolInfo where
  s := strnew (pchar (lowercase new.searchkey))
  originalstring := strnew (pchar new.searchkey)
  module := strnew (pchar new.module)
  address := new.address
  size := new.size
  extra := new.extraData
  previous := previous
  next := next

def NewSymbol.name (new : NewSymbol) : Text :=
  pchar (lowercase new.searchkey)

def addAddress (handler : Handler) (new : NewSymbol) (symbol : Pointer)
    (place : ℕ) : Handler :=
  let prev := (handler.AddressToString.take place).getLast?
  let next := (handler.AddressToString.drop place).head?
  let heap := Function.update handler.heap symbol
    (some (new.info prev next))
  { handler with
    heap := setPrevious (setNext heap prev symbol) next symbol
    AddressToString := insertAt handler.AddressToString place symbol }

def addString (handler : Handler) (symbol : Pointer) (place : ℕ)
    (skip : Bool) : Handler :=
  { handler with
    StringToAddress := insertAt handler.StringToAddress place symbol
    live := (symbol, skip) :: handler.live }

inductive Move
  | addSymbol (new : NewSymbol) (symbol : Pointer)
      (unset : Option Pointer × Option Pointer)
      (addressPlace stringPlace : ℕ)
  | deleteAddress (address : UInt64) (found foundName : Option Pointer)
  | deleteSearchkey (searchkey : Text) (found foundAddress : Option Pointer)
      (outcome : List Pointer × List Pointer)
  | clear
deriving DecidableEq, Repr

def AddSymbol (handler : Handler) (new : NewSymbol) (symbol : Pointer)
    (unset : Option Pointer × Option Pointer)
    (addressPlace stringPlace : ℕ) : Option Handler :=
  if handler.heap symbol = none ∧
      addsAt handler.nameOf handler.StringToAddress new.name
        stringPlace then
    if new.skipaddresstostringlookup then
      some
        (addString
          { handler with
            heap := Function.update handler.heap symbol
              (some (new.info unset.1 unset.2)) }
          symbol stringPlace true)
    else if addsAt handler.addressOf handler.AddressToString new.address
        addressPlace then
      some
        (addString (addAddress handler new symbol addressPlace) symbol
          stringPlace false)
    else
      none
  else
    none

def Handler.forget (handler : Handler) (symbol : Pointer) : Handler :=
  { handler with live := handler.live.filter fun entry => entry.1 ≠ symbol }

/-- `DeleteSymbol(address)`.  The name that is then searched for has just
been freed, and the found record's own name is `nil` by then: any node of the
tree, or none, may be found. -/
def DeleteSymbolAddress (handler : Handler) (address : UInt64)
    (found foundName : Option Pointer) : Option Handler :=
  if finds handler.addressOf handler.AddressToString address found then
    match found with
    | none => some handler
    | some symbol =>
      let handler := handler.forget symbol
      let handler :=
        { handler with
          heap := disposeStrings handler.heap symbol
          AddressToString := handler.AddressToString.erase symbol }
      match foundName with
      | none => some handler
      | some other =>
        if other ∈ handler.StringToAddress then
          some
            { handler with
              heap := disposeStrings handler.heap other
              StringToAddress := handler.StringToAddress.erase other }
        else
          none
  else
    none

/-- `DeleteSymbol(searchkey)`.  The node found in the address tree is deleted
from the name tree, of which it is no node; `outcome` is what the two trees
hold afterwards. -/
def DeleteSymbolSearchkey (handler : Handler) (searchkey : Text)
    (found foundAddress : Option Pointer)
    (outcome : List Pointer × List Pointer) : Option Handler :=
  if finds handler.nameOf handler.StringToAddress
      (pchar (lowercase searchkey)) found then
    match found with
    | none => some handler
    | some symbol =>
      match handler.addressOf symbol with
      | none => none
      | some address =>
        let handler := handler.forget symbol
        let handler :=
          { handler with
            heap := disposeStrings handler.heap symbol
            StringToAddress := handler.StringToAddress.erase symbol }
        if finds handler.addressOf handler.AddressToString address
            foundAddress then
          match foundAddress with
          | none => some handler
          | some other =>
            some
              { handler with
                heap := disposeStrings handler.heap other
                AddressToString := outcome.1
                StringToAddress := outcome.2 }
        else
          none
  else
    none

def clear (handler : Handler) : Handler where
  heap := fun symbol =>
    if symbol ∈ handler.StringToAddress then none else handler.heap symbol
  AddressToString := []
  StringToAddress := []
  live := []

def step (handler : Handler) : Move → Option Handler
  | .addSymbol new symbol unset addressPlace stringPlace =>
    AddSymbol handler new symbol unset addressPlace stringPlace
  | .deleteAddress address found foundName =>
    DeleteSymbolAddress handler address found foundName
  | .deleteSearchkey searchkey found foundAddress outcome =>
    DeleteSymbolSearchkey handler searchkey found foundAddress outcome
  | .clear => some (clear handler)

/-! ## Consistency -/

def Ordered {Key : Type*} [LE Key] (keyOf : Pointer → Option Key)
    (tree : List Pointer) : Prop :=
  tree.Pairwise fun first second =>
    ∀ low ∈ keyOf first, ∀ high ∈ keyOf second, low ≤ high

/-- The trees and the linked list hold the live symbols, each in its
order. -/
structure Consistent (handler : Handler) : Prop where
  nodup : (handler.live.map Prod.fst).Nodup
  allocated : ∀ symbol ∈ handler.live.map Prod.fst,
    (handler.heap symbol).isSome
  strings : handler.StringToAddress.Perm (handler.live.map Prod.fst)
  addresses : handler.AddressToString.Perm
    ((handler.live.filter fun entry => !entry.2).map Prod.fst)
  alphabetical : Ordered handler.nameOf handler.StringToAddress
  ascending : Ordered handler.addressOf handler.AddressToString
  linked : Linked handler.previousOf handler.nextOf none
    handler.AddressToString none

inductive Listed (handler : Handler) : Pointer → Prop
  | node {symbol : Pointer} (hnode : symbol ∈ handler.AddressToString) :
      Listed handler symbol
  | previous {symbol other : Pointer} (hlisted : Listed handler symbol)
      (hprevious : handler.previousOf symbol = some other) :
      Listed handler other
  | next {symbol other : Pointer} (hlisted : Listed handler symbol)
      (hnext : handler.nextOf symbol = some other) : Listed handler other

def NothingStale (handler : Handler) : Prop :=
  ∀ symbol, symbol ∈ handler.StringToAddress ∨ Listed handler symbol →
    symbol ∈ handler.live.map Prod.fst

theorem Consistent.create : Consistent Handler.create where
  nodup := nodup_nil
  allocated := by
    intro symbol hsymbol
    cases hsymbol
  strings := List.Perm.refl []
  addresses := List.Perm.refl []
  alphabetical := List.Pairwise.nil
  ascending := List.Pairwise.nil
  linked := trivial

namespace Consistent

variable {handler : Handler} (hconsistent : Consistent handler)
include hconsistent

variable {symbol : Pointer}

theorem mem_live_of_mem_addresses
    (hsymbol : symbol ∈ handler.AddressToString) :
    symbol ∈ handler.live.map Prod.fst := by
  have hfiltered := hconsistent.addresses.mem_iff.mp hsymbol
  obtain ⟨entry, hentry, rfl⟩ := mem_map.mp hfiltered
  exact mem_map_of_mem (mem_of_mem_filter hentry)

theorem mem_addresses_of_listed (hlisted : Listed handler symbol) :
    symbol ∈ handler.AddressToString := by
  induction hlisted with
  | node hnode => exact hnode
  | previous _ hprevious ih =>
    rcases hconsistent.linked.previous_mem ih hprevious with hmem | hnone
    · exact hmem
    · cases hnone
  | next _ hnext ih =>
    rcases hconsistent.linked.next_mem ih hnext with hmem | hnone
    · exact hmem
    · cases hnone

theorem nothingStale : NothingStale handler := by
  rintro symbol (hstring | hlisted)
  · exact hconsistent.strings.mem_iff.mp hstring
  · exact hconsistent.mem_live_of_mem_addresses
      (hconsistent.mem_addresses_of_listed hlisted)

theorem addresses_nodup : handler.AddressToString.Nodup := by
  rw [hconsistent.addresses.nodup_iff]
  exact hconsistent.nodup.sublist (filter_sublist.map Prod.fst)

theorem strings_nodup : handler.StringToAddress.Nodup :=
  hconsistent.strings.nodup_iff.mpr hconsistent.nodup

theorem isSome_of_mem_addresses (hsymbol : symbol ∈ handler.AddressToString) :
    (handler.heap symbol).isSome :=
  hconsistent.allocated symbol (hconsistent.mem_live_of_mem_addresses hsymbol)

end Consistent

theorem Ordered.congr {Key : Type*} [LE Key]
    {keyOf keyOf' : Pointer → Option Key} {tree : List Pointer}
    (hordered : Ordered keyOf tree)
    (hsame : ∀ node ∈ tree, keyOf' node = keyOf node) :
    Ordered keyOf' tree := by
  refine List.Pairwise.imp_of_mem ?_ hordered
  intro first second hfirst hsecond hbelow
  rw [hsame first hfirst, hsame second hsecond]
  exact hbelow

theorem ordered_insertAt {Key : Type*} [LE Key] [DecidableLE Key]
    {keyOf keyOf' : Pointer → Option Key} {tree : List Pointer} {place : ℕ}
    {node : Pointer} {key : Key} (hordered : Ordered keyOf tree)
    (hsame : ∀ other ∈ tree, keyOf' other = keyOf other)
    (hkey : keyOf' node = some key) (hadds : addsAt keyOf tree key place) :
    Ordered keyOf' (insertAt tree place node) := by
  obtain ⟨hleft, hright⟩ := (Bool.and_eq_true _ _).mp hadds
  have hlow : ∀ other ∈ tree.take place, ∀ low ∈ keyOf' other,
      low ≤ key := by
    intro other hother low hlow
    have hall := all_eq_true.mp hleft other hother
    rw [hsame other (mem_of_mem_take hother)] at hlow
    rw [Option.mem_def.mp hlow] at hall
    exact of_decide_eq_true hall
  have hhigh : ∀ other ∈ tree.drop place, ∀ high ∈ keyOf' other,
      key ≤ high := by
    intro other hother high hhigh
    have hall := all_eq_true.mp hright other hother
    rw [hsame other (mem_of_mem_drop hother)] at hhigh
    rw [Option.mem_def.mp hhigh] at hall
    exact of_decide_eq_true hall
  have hsplit : Ordered keyOf' (tree.take place ++ tree.drop place) := by
    rw [take_append_drop]
    exact hordered.congr hsame
  obtain ⟨hfirst, hsecond, hcross⟩ := pairwise_append.mp hsplit
  refine pairwise_append.mpr
    ⟨hfirst, pairwise_cons.mpr ⟨?_, hsecond⟩, ?_⟩
  · intro other hother low hequal high hmem
    rw [hkey] at hequal
    cases hequal
    exact hhigh other hother high hmem
  · intro first hleft second hright
    rcases mem_cons.mp hright with rfl | hdrop
    · intro low hmem high hequal
      rw [hkey] at hequal
      cases hequal
      exact hlow first hleft low hmem
    · exact hcross first hleft second hdrop

theorem insertAt_perm (tree : List Pointer) (place : ℕ) (node : Pointer) :
    (insertAt tree place node).Perm (node :: tree) := by
  unfold insertAt
  refine perm_middle.trans ?_
  rw [take_append_drop]

/-! ## Adding a symbol -/

theorem setNext_apply (heap : Pointer → Option SymbolInfo)
    (symbol : Option Pointer) (next other : Pointer) :
    setNext heap symbol next other =
      if symbol = some other then
        (heap other).map fun info => { info with next := some next }
      else
        heap other := by
  cases symbol with
  | none => rfl
  | some symbol =>
    unfold setNext
    by_cases hequal : other = symbol
    · subst hequal
      simp
    · simp [hequal, Ne.symm hequal]

theorem setPrevious_apply (heap : Pointer → Option SymbolInfo)
    (symbol : Option Pointer) (previous other : Pointer) :
    setPrevious heap symbol previous other =
      if symbol = some other then
        (heap other).map fun info => { info with previous := some previous }
      else
        heap other := by
  cases symbol with
  | none => rfl
  | some symbol =>
    unfold setPrevious
    by_cases hequal : other = symbol
    · subst hequal
      simp
    · simp [hequal, Ne.symm hequal]

section

variable (handler : Handler) (new : NewSymbol) (symbol : Pointer) (place : ℕ)

theorem addAddress_heap (other : Pointer) :
    (addAddress handler new symbol place).heap other =
      setPrevious
        (setNext
          (Function.update handler.heap symbol
            (some
              (new.info (handler.AddressToString.take place).getLast?
                (handler.AddressToString.drop place).head?)))
          (handler.AddressToString.take place).getLast? symbol)
        (handler.AddressToString.drop place).head? symbol other := rfl

variable {other : Pointer}

theorem addAddress_map {Field : Type*} (field : SymbolInfo → Field)
    (hfield : ∀ info previous next,
      field { info with previous := previous, next := next } = field info)
    (hother : other ≠ symbol) :
    ((addAddress handler new symbol place).heap other).map field =
      (handler.heap other).map field := by
  rw [addAddress_heap, setPrevious_apply, setNext_apply,
    Function.update_of_ne hother]
  cases handler.heap other with
  | none => simp
  | some info =>
    have hnext := hfield info info.previous (some symbol)
    have hprevious := hfield info (some symbol) info.next
    have hboth := hfield info (some symbol) (some symbol)
    split_ifs
    · exact congrArg some hboth
    · exact congrArg some hprevious
    · exact congrArg some hnext
    · rfl

theorem addAddress_symbol (hfresh : symbol ∉ handler.AddressToString) :
    (addAddress handler new symbol place).heap symbol =
      some (new.info (handler.AddressToString.take place).getLast?
        (handler.AddressToString.drop place).head?) := by
  have hlast : (handler.AddressToString.take place).getLast? ≠
      some symbol := fun hequal =>
    hfresh (mem_of_mem_take (mem_of_getLast? hequal))
  have hhead : (handler.AddressToString.drop place).head? ≠
      some symbol := fun hequal =>
    hfresh (mem_of_mem_drop (mem_of_mem_head? hequal))
  rw [addAddress_heap, setPrevious_apply, if_neg hhead, setNext_apply,
    if_neg hlast, Function.update_self]

theorem addAddress_previousOf (hother : other ≠ symbol)
    (hallocated : (handler.heap other).isSome) :
    (addAddress handler new symbol place).previousOf other =
      if (handler.AddressToString.drop place).head? = some other then
        some symbol
      else
        handler.previousOf other := by
  obtain ⟨info, hinfo⟩ := Option.isSome_iff_exists.mp hallocated
  unfold Handler.previousOf
  rw [addAddress_heap, setPrevious_apply, setNext_apply,
    Function.update_of_ne hother, hinfo]
  split_ifs
  · rfl
  · rfl
  · rfl
  · rfl

theorem addAddress_nextOf (hother : other ≠ symbol)
    (hallocated : (handler.heap other).isSome) :
    (addAddress handler new symbol place).nextOf other =
      if (handler.AddressToString.take place).getLast? = some other then
        some symbol
      else
        handler.nextOf other := by
  obtain ⟨info, hinfo⟩ := Option.isSome_iff_exists.mp hallocated
  unfold Handler.nextOf
  rw [addAddress_heap, setPrevious_apply, setNext_apply,
    Function.update_of_ne hother, hinfo]
  split_ifs
  · rfl
  · rfl
  · rfl
  · rfl

end

namespace Consistent

variable {handler : Handler} (hconsistent : Consistent handler)
  {symbol : Pointer} (hfree : handler.heap symbol = none)
include hconsistent hfree

theorem not_mem_live_of_free : symbol ∉ handler.live.map Prod.fst := by
  intro hmem
  have hsome := hconsistent.allocated symbol hmem
  rw [hfree] at hsome
  cases hsome

theorem ne_of_mem_addresses {other : Pointer}
    (hother : other ∈ handler.AddressToString) : other ≠ symbol := by
  rintro rfl
  exact hconsistent.not_mem_live_of_free hfree
    (hconsistent.mem_live_of_mem_addresses hother)

theorem ne_of_mem_strings {other : Pointer}
    (hother : other ∈ handler.StringToAddress) : other ≠ symbol := by
  rintro rfl
  exact hconsistent.not_mem_live_of_free hfree
    (hconsistent.strings.mem_iff.mp hother)

theorem linked_addAddress (new : NewSymbol) (place : ℕ) :
    Linked (addAddress handler new symbol place).previousOf
      (addAddress handler new symbol place).nextOf none
      (insertAt handler.AddressToString place symbol) none := by
  have hwhole : handler.AddressToString.take place ++
      handler.AddressToString.drop place = handler.AddressToString :=
    take_append_drop place handler.AddressToString
  have hfresh : symbol ∉ handler.AddressToString := fun hmem =>
    hconsistent.ne_of_mem_addresses hfree hmem rfl
  have hne : ∀ other ∈ handler.AddressToString, other ≠ symbol :=
    fun other hother => hconsistent.ne_of_mem_addresses hfree hother
  have hsome : ∀ other ∈ handler.AddressToString,
      (handler.heap other).isSome :=
    fun other hother => hconsistent.isSome_of_mem_addresses hother
  have hinfo := addAddress_symbol handler new symbol place hfresh
  unfold insertAt
  have hbefore : Linked handler.previousOf handler.nextOf none
      (handler.AddressToString.take place ++
        handler.AddressToString.drop place) none := by
    rw [hwhole]
    exact hconsistent.linked
  refine hbefore.insert ?_ ?_ ?_ ?_ ?_ ?_ ?_
  · rw [hwhole]
    exact hconsistent.addresses_nodup
  · unfold Handler.previousOf
    rw [hinfo]
    rfl
  · unfold Handler.nextOf
    rw [hinfo]
    rfl
  · intro other hother
    have hmem : other ∈ handler.AddressToString :=
      mem_of_mem_take (mem_of_getLast? hother)
    rw [addAddress_nextOf handler new symbol place (hne other hmem)
      (hsome other hmem)]
    exact if_pos hother
  · intro other hother
    have hmem : other ∈ handler.AddressToString :=
      mem_of_mem_drop (mem_of_mem_head? hother)
    rw [addAddress_previousOf handler new symbol place (hne other hmem)
      (hsome other hmem)]
    exact if_pos hother
  · intro other hother hnot
    rw [hwhole] at hother
    rw [addAddress_previousOf handler new symbol place (hne other hother)
      (hsome other hother)]
    exact if_neg hnot
  · intro other hother hnot
    rw [hwhole] at hother
    rw [addAddress_nextOf handler new symbol place (hne other hother)
      (hsome other hother)]
    exact if_neg hnot

variable {new : NewSymbol} {stringPlace : ℕ}

theorem consistent_addString {after : Handler} {skip : Bool}
    {previous next : Option Pointer}
    (hstrings : after.StringToAddress = handler.StringToAddress)
    (hlive : after.live = handler.live)
    (hsymbol : after.heap symbol = some (new.info previous next))
    (hsome : ∀ other, other ≠ symbol →
      (after.heap other).isSome = (handler.heap other).isSome)
    (hname : ∀ other, other ≠ symbol →
      after.nameOf other = handler.nameOf other)
    (hadds : addsAt handler.nameOf handler.StringToAddress new.name
      stringPlace) (haddresses : after.AddressToString.Perm
      ((((symbol, skip) :: handler.live).filter fun entry =>
        !entry.2).map Prod.fst))
    (hascending : Ordered after.addressOf after.AddressToString)
    (hlinked : Linked after.previousOf after.nextOf none
      after.AddressToString none) :
    Consistent (addString after symbol stringPlace skip) where
  nodup := by
    unfold addString
    simp only [map_cons, hlive]
    exact nodup_cons.mpr
      ⟨hconsistent.not_mem_live_of_free hfree, hconsistent.nodup⟩
  allocated := by
    unfold addString
    simp only [map_cons, hlive]
    intro other hother
    rcases mem_cons.mp hother with rfl | hmem
    · rw [hsymbol]
      rfl
    · have hne : other ≠ symbol := by
        rintro rfl
        exact hconsistent.not_mem_live_of_free hfree hmem
      rw [hsome other hne]
      exact hconsistent.allocated other hmem
  strings := by
    unfold addString
    simp only [map_cons, hlive, hstrings]
    exact (insertAt_perm _ _ _).trans (hconsistent.strings.cons symbol)
  addresses := by
    unfold addString
    simp only [hlive]
    exact haddresses
  alphabetical := by
    have hkey : after.nameOf symbol = some new.name := by
      unfold Handler.nameOf
      rw [hsymbol]
      unfold NewSymbol.info NewSymbol.name strnew
      by_cases hempty : pchar (lowercase new.searchkey) = []
      · simp [hempty]
      · simp [hempty]
    unfold addString
    simp only [hstrings]
    apply ordered_insertAt hconsistent.alphabetical _ hkey hadds
    intro other hother
    exact hname other (hconsistent.ne_of_mem_strings hfree hother)
  ascending := hascending
  linked := hlinked

theorem addSkipped {previous next : Option Pointer}
    (hadds : addsAt handler.nameOf handler.StringToAddress new.name
      stringPlace) :
    Consistent
      (addString
        { handler with
          heap := Function.update handler.heap symbol
            (some (new.info previous next)) }
        symbol stringPlace true) := by
  have hheap : ∀ other, other ≠ symbol →
      Function.update handler.heap symbol
        (some (new.info previous next)) other = handler.heap other :=
    fun other hother => Function.update_of_ne hother _ _
  refine hconsistent.consistent_addString hfree rfl rfl
    (Function.update_self _ _ _) ?_ ?_ hadds ?_ ?_ ?_
  · intro other hother
    exact congrArg Option.isSome (hheap other hother)
  · intro other hother
    exact congrArg (Option.map _) (hheap other hother)
  · exact hconsistent.addresses
  · apply hconsistent.ascending.congr
    intro other hother
    exact congrArg (Option.map _)
      (hheap other (hconsistent.ne_of_mem_addresses hfree hother))
  · apply hconsistent.linked.congr
    · intro other hother
      exact congrArg (Option.bind · SymbolInfo.previous)
        (hheap other (hconsistent.ne_of_mem_addresses hfree hother))
    · intro other hother
      exact congrArg (Option.bind · SymbolInfo.next)
        (hheap other (hconsistent.ne_of_mem_addresses hfree hother))

theorem addIndexed {addressPlace : ℕ}
    (haddsName : addsAt handler.nameOf handler.StringToAddress new.name
      stringPlace)
    (haddsAddress : addsAt handler.addressOf handler.AddressToString
      new.address addressPlace) :
    Consistent
      (addString (addAddress handler new symbol addressPlace) symbol
        stringPlace false) := by
  have hfresh : symbol ∉ handler.AddressToString := fun hmem =>
    hconsistent.ne_of_mem_addresses hfree hmem rfl
  have hsymbol := addAddress_symbol handler new symbol addressPlace hfresh
  refine hconsistent.consistent_addString hfree rfl rfl hsymbol ?_ ?_
    haddsName ?_ ?_ ?_
  · intro other hother
    have hunit := addAddress_map handler new symbol addressPlace
      (fun _ => ()) (fun _ _ _ => rfl) hother
    rw [← Option.isSome_map, hunit, Option.isSome_map]
  · intro other hother
    exact addAddress_map handler new symbol addressPlace
      (fun info => info.s.getD []) (fun _ _ _ => rfl) hother
  · exact (insertAt_perm _ _ _).trans (hconsistent.addresses.cons symbol)
  · have hkey : (addAddress handler new symbol addressPlace).addressOf
        symbol = some new.address := by
      unfold Handler.addressOf
      rw [hsymbol]
      rfl
    apply ordered_insertAt hconsistent.ascending _ hkey haddsAddress
    intro other hother
    exact addAddress_map handler new symbol addressPlace
      SymbolInfo.address (fun _ _ _ => rfl)
      (hconsistent.ne_of_mem_addresses hfree hother)
  · exact hconsistent.linked_addAddress hfree new addressPlace

omit hfree in
theorem addSymbol {symbol : Pointer}
    {unset : Option Pointer × Option Pointer} {addressPlace : ℕ}
    {after : Handler}
    (hstep : AddSymbol handler new symbol unset addressPlace stringPlace =
      some after) : Consistent after := by
  unfold AddSymbol at hstep
  split at hstep
  · rename_i hguard
    obtain ⟨hfree, haddsName⟩ := hguard
    split at hstep
    · cases hstep
      exact hconsistent.addSkipped hfree haddsName
    · split at hstep
      · rename_i haddsAddress
        cases hstep
        exact hconsistent.addIndexed hfree haddsName haddsAddress
      · cases hstep
  · cases hstep

end Consistent

/-! ## Deleting a symbol -/

/-- The deletions that keep the structures together: those that find no
symbol of the address tree. -/
def LeavesAddressTree (handler : Handler) : Move → Prop
  | .addSymbol .. => True
  | .deleteAddress address _ _ =>
    ∀ symbol ∈ handler.AddressToString,
      handler.addressOf symbol ≠ some address
  | .deleteSearchkey searchkey _ _ _ =>
    ∀ symbol ∈ handler.StringToAddress,
      handler.nameOf symbol = some (pchar (lowercase searchkey)) →
      ∀ other ∈ handler.AddressToString,
        handler.addressOf other ≠ handler.addressOf symbol
  | .clear => True

theorem disposeStrings_of_ne (heap : Pointer → Option SymbolInfo)
    {symbol other : Pointer} (hother : other ≠ symbol) :
    disposeStrings heap symbol other = heap other :=
  Function.update_of_ne hother _ _

theorem filter_indexed_forget (live : List (Pointer × Bool))
    {symbol : Pointer}
    (hsymbol : symbol ∉ (live.filter fun entry => !entry.2).map Prod.fst) :
    (live.filter fun entry => decide (entry.1 ≠ symbol)).filter
        (fun entry => !entry.2) =
      live.filter fun entry => !entry.2 := by
  rw [filter_comm]
  apply filter_eq_self.mpr
  intro entry hentry
  apply decide_eq_true
  rintro rfl
  exact hsymbol (mem_map_of_mem hentry)

theorem map_fst_forget {live : List (Pointer × Bool)}
    (hnodup : (live.map Prod.fst).Nodup) (symbol : Pointer) :
    (live.filter fun entry => decide (entry.1 ≠ symbol)).map Prod.fst =
      (live.map Prod.fst).erase symbol := by
  rw [hnodup.erase_eq_filter, filter_map]
  congr 1
  apply filter_congr
  intro entry _
  by_cases hequal : entry.1 = symbol
  · simp [hequal]
  · simp [hequal]

namespace Consistent

variable {handler : Handler} (hconsistent : Consistent handler)
include hconsistent

theorem deleteSkipped {symbol : Pointer}
    (hsymbol : symbol ∉ handler.AddressToString) :
    Consistent
      { handler with
        heap := disposeStrings handler.heap symbol
        StringToAddress := handler.StringToAddress.erase symbol
        live := handler.live.filter fun entry => entry.1 ≠ symbol } := by
  have hmap := map_fst_forget hconsistent.nodup symbol
  have hne : ∀ other ∈ handler.AddressToString, other ≠ symbol := by
    rintro other hother rfl
    exact hsymbol hother
  have hstay : ∀ other ∈ handler.StringToAddress.erase symbol,
      other ≠ symbol ∧ other ∈ handler.StringToAddress := by
    intro other hother
    exact (hconsistent.strings_nodup.mem_erase_iff).mp hother
  constructor
  · simp only [hmap]
    exact hconsistent.nodup.erase symbol
  · simp only [hmap]
    intro other hother
    obtain ⟨hother, hlive⟩ := hconsistent.nodup.mem_erase_iff.mp hother
    rw [disposeStrings_of_ne _ hother]
    exact hconsistent.allocated other hlive
  · simp only [hmap]
    exact hconsistent.strings.erase symbol
  · have hindexed : symbol ∉
        (handler.live.filter fun entry => !entry.2).map Prod.fst :=
      fun hmem => hsymbol (hconsistent.addresses.mem_iff.mpr hmem)
    simp only [filter_indexed_forget handler.live hindexed]
    exact hconsistent.addresses
  · have hrest : Ordered handler.nameOf
        (handler.StringToAddress.erase symbol) :=
      hconsistent.alphabetical.sublist erase_sublist
    apply hrest.congr
    intro other hother
    exact congrArg (Option.map _)
      (disposeStrings_of_ne handler.heap (hstay other hother).1)
  · apply hconsistent.ascending.congr
    intro other hother
    exact congrArg (Option.map _)
      (disposeStrings_of_ne handler.heap (hne other hother))
  · apply hconsistent.linked.congr
    · intro other hother
      exact congrArg (Option.bind · SymbolInfo.previous)
        (disposeStrings_of_ne handler.heap (hne other hother))
    · intro other hother
      exact congrArg (Option.bind · SymbolInfo.next)
        (disposeStrings_of_ne handler.heap (hne other hother))

variable {after : Handler}

theorem deleteAddress {address : UInt64} {found foundName : Option Pointer}
    (hleaves : LeavesAddressTree handler
      (.deleteAddress address found foundName))
    (hstep : DeleteSymbolAddress handler address found foundName =
      some after) : Consistent after := by
  unfold DeleteSymbolAddress at hstep
  split at hstep
  · rename_i hfinds
    cases found with
    | none =>
      cases hstep
      exact hconsistent
    | some symbol =>
      obtain ⟨hmem, haddress⟩ := (Bool.and_eq_true _ _).mp hfinds
      exact absurd (of_decide_eq_true haddress)
        (hleaves symbol (of_decide_eq_true hmem))
  · cases hstep

theorem deleteSearchkey {searchkey : Text}
    {found foundAddress : Option Pointer}
    {outcome : List Pointer × List Pointer}
    (hleaves : LeavesAddressTree handler
      (.deleteSearchkey searchkey found foundAddress outcome))
    (hstep : DeleteSymbolSearchkey handler searchkey found foundAddress
      outcome = some after) : Consistent after := by
  unfold DeleteSymbolSearchkey at hstep
  split at hstep
  · rename_i hfinds
    cases found with
    | none =>
      cases hstep
      exact hconsistent
    | some symbol =>
      obtain ⟨hmem, hname⟩ := (Bool.and_eq_true _ _).mp hfinds
      have halone := hleaves symbol (of_decide_eq_true hmem)
        (of_decide_eq_true hname)
      have hsymbol : symbol ∉ handler.AddressToString := fun hindexed =>
        halone symbol hindexed rfl
      have hdeleted := hconsistent.deleteSkipped hsymbol
      simp only at hstep
      split at hstep
      · cases hstep
      · rename_i address haddress
        split at hstep
        · rename_i hfindsAddress
          cases foundAddress with
          | none =>
            cases hstep
            exact hdeleted
          | some other =>
            obtain ⟨hfound, hother⟩ :=
              (Bool.and_eq_true _ _).mp hfindsAddress
            have hindexed : other ∈ handler.AddressToString :=
              of_decide_eq_true hfound
            have hne : other ≠ symbol := by
              rintro rfl
              exact hsymbol hindexed
            have hsame : handler.addressOf other = some address :=
              (congrArg (Option.map SymbolInfo.address)
                (disposeStrings_of_ne handler.heap hne)).symm.trans
                (of_decide_eq_true hother)
            exact absurd (hsame.trans haddress.symm) (halone other hindexed)
        · cases hstep
  · cases hstep

omit hconsistent in
theorem clear (handler : Handler) : Consistent (clear handler) where
  nodup := nodup_nil
  allocated := by
    intro symbol hsymbol
    cases hsymbol
  strings := List.Perm.refl []
  addresses := List.Perm.refl []
  alphabetical := List.Pairwise.nil
  ascending := List.Pairwise.nil
  linked := trivial

theorem step {move : Move} (hleaves : LeavesAddressTree handler move)
    (hstep : step handler move = some after) : Consistent after := by
  cases move with
  | addSymbol new symbol unset addressPlace stringPlace =>
    exact hconsistent.addSymbol hstep
  | deleteAddress address found foundName =>
    exact hconsistent.deleteAddress hleaves hstep
  | deleteSearchkey searchkey found foundAddress outcome =>
    exact hconsistent.deleteSearchkey hleaves hstep
  | clear =>
    cases hstep
    exact Consistent.clear handler

end Consistent

/-- As long as no deletion finds a symbol of the address tree, the trees and
the list agree and lead to live symbols only. -/
theorem consistent_of_reaches {handler : Handler}
    (hrun : TransitionSystem.Reaches step LeavesAddressTree Handler.create
      handler) :
    Consistent handler ∧ NothingStale handler := by
  have hconsistent : Consistent handler :=
    hrun.invariant
      (fun _ _ _ hbefore hleaves hstep => hbefore.step hleaves hstep)
      Consistent.create
  exact ⟨hconsistent, hconsistent.nothingStale⟩

def symbolA : NewSymbol := ⟨[], [97], 16, 4, false, none⟩

def symbolB : NewSymbol := ⟨[], [98], 32, 4, false, none⟩

def symbolC : NewSymbol := ⟨[], [99], 48, 4, true, none⟩

def deletionOfC : List Move :=
  [.addSymbol symbolA 1 (none, none) 0 0,
    .addSymbol symbolB 2 (none, none) 1 1,
    .addSymbol symbolC 3 (none, none) 0 2,
    .deleteSearchkey [99] (some 3) none ([], [])]

def leavesAddressTree (handler : Handler) : Move → Bool
  | .addSymbol .. => true
  | .deleteAddress address _ _ =>
    handler.AddressToString.all fun symbol =>
      handler.addressOf symbol ≠ some address
  | .deleteSearchkey searchkey _ _ _ =>
    handler.StringToAddress.all fun symbol =>
      handler.nameOf symbol ≠ some (pchar (lowercase searchkey)) ||
        handler.AddressToString.all fun other =>
          handler.addressOf other ≠ handler.addressOf symbol
  | .clear => true

theorem leavesAddressTree_sound (handler : Handler) (move : Move)
    (htest : leavesAddressTree handler move = true) :
    LeavesAddressTree handler move := by
  cases move with
  | addSymbol => trivial
  | deleteAddress address found foundName =>
    intro symbol hsymbol
    exact of_decide_eq_true (all_eq_true.mp htest symbol hsymbol)
  | deleteSearchkey searchkey found foundAddress outcome =>
    intro symbol hsymbol hname other hother
    have hcase := all_eq_true.mp htest symbol hsymbol
    rcases (Bool.or_eq_true _ _).mp hcase with hdifferent | halone
    · exact absurd hname (of_decide_eq_true hdifferent)
    · exact of_decide_eq_true (all_eq_true.mp halone other hother)
  | clear => trivial

def after (moves : List Move) : Handler :=
  (TransitionSystem.runLabels step moves Handler.create).getD Handler.create

theorem consistent_after_deletionOfC :
    Consistent (after deletionOfC) ∧ NothingStale (after deletionOfC) :=
  consistent_of_reaches
    (TransitionSystem.reaches_of_allowedLabels leavesAddressTree_sound
      (by decide : TransitionSystem.allowedLabels step leavesAddressTree
        deletionOfC Handler.create = true)
      (by rfl))

def deletionAtB : List Move :=
  [.addSymbol symbolA 1 (none, none) 0 0,
    .addSymbol symbolB 2 (none, none) 1 1,
    .deleteAddress 32 (some 2) (some 2)]

theorem deletionAtB_not_consistent :
    TransitionSystem.Reaches step (fun _ _ => True) Handler.create
        (after deletionAtB) ∧
      ¬(Consistent (after deletionAtB) ∧
        NothingStale (after deletionAtB)) := by
  constructor
  · have hrun : TransitionSystem.runLabels step deletionAtB
        Handler.create = some (after deletionAtB) := rfl
    exact TransitionSystem.reaches_of_runLabels (fun _ _ _ => trivial) hrun
  · rintro ⟨-, hlive⟩
    have hfirst : Listed (after deletionAtB) 1 := Listed.node (by decide)
    have hlisted : Listed (after deletionAtB) 2 := Listed.next hfirst rfl
    have hmem := hlive 2 (Or.inr hlisted)
    revert hmem
    decide

end SymbolList
end CheatEngine
