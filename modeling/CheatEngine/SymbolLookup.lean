import CheatEngine.SearchTree
import CheatEngine.SymbolList

/-!
# Looking a symbol up by an address inside it

`FindAddress` asks the address tree for the nearest node, which may be the
last symbol before the address or the first one behind it, and goes on along
the links from there.  The two directions do not test the end of a symbol in
the same way.
-/

namespace CheatEngine
namespace SymbolList

open List

open SearchTree (Nearest)
open DoublyLinked (Linked linked_append)

/-- `InRangeQ` of CEFuncProc: both ends are inside. -/
def InRangeQ (AValue AMin AMax : UInt64) : Bool :=
  decide (AMin ≤ AValue) && decide (AValue ≤ AMax)

namespace SymbolInfo

variable (info : SymbolInfo)

def finish : UInt64 :=
  info.address + UInt64.ofInt info.size

/-- The address is in the range of the symbol, which does not have its end. -/
def Covers (address : UInt64) : Prop :=
  info.address ≤ address ∧
    (address.toNat : ℤ) < info.address.toNat + info.size

instance (address : UInt64) : Decidable (info.Covers address) :=
  inferInstanceAs (Decidable (_ ∧ _))

end SymbolInfo

namespace Handler

variable (handler : Handler)

/-- The key of a node of the address tree, all of which are allocated. -/
def key (symbol : Pointer) : ℕ :=
  ((handler.addressOf symbol).map UInt64.toNat).getD 0

def symbols : List Pointer :=
  (handler.live.filter fun entry => !entry.2).map Prod.fst

def Covers (symbol : Pointer) (address : UInt64) : Prop :=
  ∃ info ∈ handler.heap symbol, info.Covers address

def Disjoint : Prop :=
  ∀ first ∈ handler.symbols, ∀ second ∈ handler.symbols, ∀ address,
    handler.Covers first address → handler.Covers second address →
      first = second

def Uncovered (address : UInt64) : Prop :=
  ∀ symbol ∈ handler.symbols, ¬handler.Covers symbol address

/-- One of the two loops.  `none` stands for a link into freed memory, or for
no end after so many symbols. -/
@[grind =]
def walk (goesOn : SymbolInfo → Bool) (link : SymbolInfo → Option Pointer)
    (address : UInt64) : ℕ → Option Pointer → Option (Option Pointer)
  | 0, _ => none
  | _ + 1, none => some none
  | fuel + 1, some x =>
    match handler.heap x with
    | none => none
    | some info =>
      if goesOn info then
        if InRangeQ address info.address info.finish then
          some (some x)
        else
          walk goesOn link address fuel (link info)
      else
        some none

def forward (address : UInt64) :
    ℕ → Option Pointer → Option (Option Pointer) :=
  handler.walk (fun x => x.address ≤ address) SymbolInfo.next address

def backward (address : UInt64) :
    ℕ → Option Pointer → Option (Option Pointer) :=
  handler.walk (fun x => address < x.finish) SymbolInfo.previous address

/-- `FindAddress` on an address tree of any shape. -/
def FindAddress (tree : SearchTree.Tree Pointer) (address : UInt64) :
    Option (Option Pointer) :=
  match tree.findNearest handler.key address.toNat with
  | none => some none
  | some x =>
    match handler.heap x with
    | none => none
    | some info =>
      let fuel := handler.AddressToString.length + 1
      if info.address = address then
        some (some x)
      else if info.address < address then
        handler.forward address fuel (some x)
      else
        handler.backward address fuel (some x)

/-- The symbol that has the address in its range, or `nil` without one. -/
def Finds (address : UInt64) : Option Pointer → Prop
  | some symbol => symbol ∈ handler.symbols ∧ handler.Covers symbol address
  | none => handler.Uncovered address

def FindsAddress (tree : SearchTree.Tree Pointer) (address : UInt64) : Prop :=
  ∃ answer, handler.FindAddress tree address = some answer ∧
    handler.Finds address answer

/-- A comparison agrees with the range of the symbol, and where that range is
empty no other symbol has the address. -/
def Decides (test : Bool) (info : SymbolInfo) (address : UInt64) : Prop :=
  (test ↔ info.Covers address) ∧
    (info.size ≤ 0 → handler.Uncovered address)

/-- When the lookup is right.  A symbol found at the address must not be
empty.  The one before the address must be decided by `InRangeQ`, which has
the end inside, when the search ends there; when it ends at the symbol behind,
by the condition of the loop, which has not. -/
def Reliable (tree : SearchTree.Tree Pointer) (address : UInt64) : Prop :=
  ∀ x ∈ tree.findNearest handler.key address.toNat, ∀ info ∈ handler.heap x,
    if info.address = address then
      0 < info.size
    else if info.address < address then
      handler.Decides (InRangeQ address info.address info.finish) info address
    else if address < info.finish then
      ∀ previous ∈ info.previous, ∀ before ∈ handler.heap previous,
        handler.Decides (address < before.finish) before address
    else
      handler.Uncovered address

end Handler

/-! ## The neighbours in the list -/

section

variable {handler : Handler} {address : UInt64} {symbol : Pointer}
  {info : SymbolInfo} {left right : List Pointer}

theorem Handler.key_eq (hinfo : handler.heap symbol = some info) :
    handler.key symbol = info.address.toNat := by
  unfold Handler.key Handler.addressOf
  rw [hinfo]
  rfl

theorem Handler.covers_iff (hinfo : handler.heap symbol = some info) :
    handler.Covers symbol address ↔ info.Covers address := by
  constructor
  · rintro ⟨other, hother, hcovers⟩
    rw [hinfo] at hother
    cases hother
    exact hcovers
  · intro hcovers
    exact ⟨info, hinfo, hcovers⟩

theorem Handler.Covers.key_le (hcovers : handler.Covers symbol address) :
    handler.key symbol ≤ address.toNat := by
  obtain ⟨info, hinfo, hle, -⟩ := hcovers
  rw [Handler.key_eq hinfo]
  exact UInt64.le_iff_toNat_le.mp hle

theorem Handler.Covers.between {middle : UInt64}
    (hcovers : handler.Covers symbol address)
    (hlow : handler.key symbol ≤ middle.toNat)
    (hhigh : middle.toNat ≤ address.toNat) :
    handler.Covers symbol middle := by
  obtain ⟨info, hinfo, -, hlt⟩ := hcovers
  rw [Handler.key_eq hinfo] at hlow
  exact ⟨info, hinfo, UInt64.le_iff_toNat_le.mpr hlow, by omega⟩

namespace Consistent

variable (hconsistent : Consistent handler)
include hconsistent

theorem mem_symbols_iff :
    symbol ∈ handler.symbols ↔ symbol ∈ handler.AddressToString :=
  hconsistent.addresses.mem_iff.symm

theorem exists_info (hsymbol : symbol ∈ handler.AddressToString) :
    ∃ info, handler.heap symbol = some info :=
  Option.isSome_iff_exists.mp (hconsistent.isSome_of_mem_addresses hsymbol)

theorem keys_ascending :
    handler.AddressToString.Pairwise fun first second =>
      handler.key first ≤ handler.key second := by
  refine List.Pairwise.imp_of_mem ?_ hconsistent.ascending
  intro first second hfirst hsecond hle
  obtain ⟨low, hlow⟩ := hconsistent.exists_info hfirst
  obtain ⟨high, hhigh⟩ := hconsistent.exists_info hsecond
  rw [Handler.key_eq hlow, Handler.key_eq hhigh]
  exact UInt64.le_iff_toNat_le.mp
    (hle low.address (congrArg (Option.map _) hlow) high.address
      (congrArg (Option.map _) hhigh))

section

variable (hsplit : handler.AddressToString = left ++ symbol :: right)
  (hinfo : handler.heap symbol = some info)

include hsplit hinfo

theorem previous_eq : info.previous = left.getLast? := by
  have hlinked := hconsistent.linked
  rw [hsplit] at hlinked
  obtain ⟨-, hprevious, -⟩ := linked_append.mp hlinked
  rw [Option.or_none] at hprevious
  rw [← hprevious, Handler.previousOf, hinfo]
  rfl

theorem next_eq : info.next = right.head? := by
  have hlinked := hconsistent.linked
  rw [hsplit] at hlinked
  obtain ⟨-, -, hnext, -⟩ := linked_append.mp hlinked
  rw [Option.or_none] at hnext
  rw [← hnext, Handler.nextOf, hinfo]
  rfl

end

end Consistent

structure LastBefore (handler : Handler) (address : UInt64)
    (left : List Pointer) (symbol : Pointer) (right : List Pointer) :
    Prop where
  split : handler.AddressToString = left ++ symbol :: right
  before : handler.key symbol ≤ address.toNat
  behind : ∀ other ∈ right, address.toNat < handler.key other

namespace LastBefore

variable (hconsistent : Consistent handler) (hdisjoint : handler.Disjoint)
  (hlast : LastBefore handler address left symbol right)
  (hinfo : handler.heap symbol = some info)
include hconsistent hlast

theorem mem_symbols : symbol ∈ handler.symbols := by
  rw [hconsistent.mem_symbols_iff, hlast.split]
  exact mem_append_right left mem_cons_self

include hdisjoint hinfo

theorem eq_of_covers (hsize : 0 < info.size) {other : Pointer}
    (hother : other ∈ handler.symbols)
    (hcovers : handler.Covers other address) : other = symbol := by
  have hsorted := hconsistent.keys_ascending
  have hmem := hconsistent.mem_symbols_iff.mp hother
  rw [hlast.split] at hsorted hmem
  obtain ⟨-, -, hcross⟩ := pairwise_append.mp hsorted
  have hle : handler.key other ≤ handler.key symbol := by
    rcases mem_append.mp hmem with hleft | hcons
    · exact hcross other hleft symbol mem_cons_self
    · rcases mem_cons.mp hcons with rfl | hright
      · exact le_rfl
      · exact absurd hcovers.key_le (not_le.mpr (hlast.behind other hright))
  have hkey := Handler.key_eq hinfo
  have hbefore := hlast.before
  have hstart : handler.Covers symbol info.address :=
    ⟨info, hinfo, UInt64.le_iff_toNat_le.mpr le_rfl, by omega⟩
  exact hdisjoint other hother symbol (hlast.mem_symbols hconsistent)
    info.address (hcovers.between (by omega) (by omega)) hstart

theorem uncovered_iff (hsize : 0 < info.size) :
    handler.Uncovered address ↔ ¬info.Covers address := by
  constructor
  · intro hnone hcovers
    exact hnone symbol (hlast.mem_symbols hconsistent)
      ((Handler.covers_iff hinfo).mpr hcovers)
  · intro hnot other hother hcovers
    have hequal := hlast.eq_of_covers hconsistent hdisjoint hinfo hsize
      hother hcovers
    subst hequal
    exact hnot ((Handler.covers_iff hinfo).mp hcovers)

/-- What is answered by a comparison at that symbol is right exactly when
the comparison decides it. -/
theorem finds_iff (test : Bool) :
    handler.Finds address (if test then some symbol else none) ↔
      handler.Decides test info address := by
  unfold Handler.Decides
  cases test with
  | true =>
    have hmem := hlast.mem_symbols hconsistent
    simp only [if_true, Handler.Finds, Handler.covers_iff hinfo, true_iff]
    constructor
    · rintro ⟨-, hcovers⟩
      refine ⟨hcovers, ?_⟩
      intro hempty
      have hlt := hcovers.2
      have hle := UInt64.le_iff_toNat_le.mp hcovers.1
      omega
    · rintro ⟨hcovers, -⟩
      exact ⟨hmem, hcovers⟩
  | false =>
    simp only [Bool.false_eq_true, if_false, Handler.Finds, false_iff]
    constructor
    · intro hnone
      refine ⟨?_, fun _ => hnone⟩
      intro hcovers
      exact hnone symbol (hlast.mem_symbols hconsistent)
        ((Handler.covers_iff hinfo).mpr hcovers)
    · rintro ⟨hnot, hempty⟩
      rcases le_or_gt info.size 0 with hsize | hsize
      · exact hempty hsize
      · exact (hlast.uncovered_iff hconsistent hdisjoint hinfo hsize).mpr hnot

end LastBefore

theorem inRangeQ_iff {low high : UInt64} :
    InRangeQ address low high ↔ low ≤ address ∧ address ≤ high := by
  simp [InRangeQ]

variable {goesOn : SymbolInfo → Bool}
  {link : SymbolInfo → Option Pointer} {fuel : ℕ}

namespace Handler

section

variable (hinfo : handler.heap symbol = some info)

include hinfo

theorem walk_stops (hstop : goesOn info = false) :
    handler.walk goesOn link address (fuel + 1) (some symbol) =
      some none := by
  simp only [walk, hinfo, hstop, Bool.false_eq_true, if_false]

theorem walk_hits (hgoesOn : goesOn info = true)
    (hrange : InRangeQ address info.address info.finish = true) :
    handler.walk goesOn link address (fuel + 1) (some symbol) =
      some (some symbol) := by
  simp only [walk, hinfo, hgoesOn, hrange, if_true]

theorem walk_passes (hgoesOn : goesOn info = true)
    (hrange : InRangeQ address info.address info.finish = false) :
    handler.walk goesOn link address (fuel + 1) (some symbol) =
      handler.walk goesOn link address fuel (link info) := by
  simp only [walk, hinfo, hgoesOn, hrange, if_true, Bool.false_eq_true,
    if_false]

end

end Handler

namespace LastBefore

variable (hconsistent : Consistent handler)
  (hlast : LastBefore handler address left symbol right)
  (hinfo : handler.heap symbol = some info)
include hlast hinfo

theorem address_le : info.address ≤ address := by
  have hbefore := hlast.before
  rw [Handler.key_eq hinfo] at hbefore
  exact UInt64.le_iff_toNat_le.mpr hbefore

include hconsistent in
theorem forward_eq :
    handler.forward address (fuel + 2) (some symbol) =
      some (if InRangeQ address info.address info.finish then
        some symbol else none) := by
  have hgoesOn := decide_eq_true (hlast.address_le hinfo)
  cases hrange : InRangeQ address info.address info.finish with
  | true =>
    exact Handler.walk_hits hinfo hgoesOn hrange
  | false =>
    refine (Handler.walk_passes hinfo hgoesOn hrange).trans ?_
    rw [hconsistent.next_eq hlast.split hinfo]
    cases right with
    | nil => rfl
    | cons other rest =>
      have hmem : other ∈ handler.AddressToString := by
        rw [hlast.split]
        simp
      obtain ⟨otherInfo, hother⟩ := hconsistent.exists_info hmem
      have hbehind := hlast.behind other mem_cons_self
      rw [Handler.key_eq hother] at hbehind
      apply Handler.walk_stops hother
      apply decide_eq_false
      intro hle
      exact absurd (UInt64.le_iff_toNat_le.mp hle) (not_le.mpr hbehind)

theorem backward_eq :
    handler.backward address (fuel + 1) (some symbol) =
      some (if decide (address < info.finish) then
        some symbol else none) := by
  cases hgoesOn : decide (address < info.finish) with
  | true =>
    have hlt := UInt64.lt_iff_toNat_lt.mp (of_decide_eq_true hgoesOn)
    have hrange : InRangeQ address info.address info.finish = true :=
      inRangeQ_iff.mpr ⟨hlast.address_le hinfo,
        UInt64.le_iff_toNat_le.mpr hlt.le⟩
    exact Handler.walk_hits hinfo hgoesOn hrange
  | false =>
    exact Handler.walk_stops hinfo hgoesOn

end LastBefore

/-! ## The nearest symbol -/

structure FirstBehind (handler : Handler) (address : UInt64)
    (left : List Pointer) (symbol : Pointer) (right : List Pointer) :
    Prop where
  split : handler.AddressToString = left ++ symbol :: right
  behind : address.toNat < handler.key symbol
  before : ∀ other ∈ left, handler.key other < address.toNat

namespace FirstBehind

variable (hconsistent : Consistent handler)
  (hfirst : FirstBehind handler address left symbol right)
include hconsistent hfirst

theorem right_behind {other : Pointer} (hother : other ∈ symbol :: right) :
    address.toNat < handler.key other := by
  have hsorted := hconsistent.keys_ascending
  rw [hfirst.split] at hsorted
  obtain ⟨-, hcons, -⟩ := pairwise_append.mp hsorted
  have hbehind := hfirst.behind
  rcases mem_cons.mp hother with rfl | hmem
  · exact hbehind
  · exact hbehind.trans_le ((pairwise_cons.mp hcons).1 other hmem)

theorem lastBefore {rest : List Pointer} {previous : Pointer}
    (hleft : left = rest ++ [previous]) :
    LastBefore handler address rest previous (symbol :: right) where
  split := by rw [hfirst.split, hleft]; simp
  before := (hfirst.before previous (by simp [hleft])).le
  behind := fun _ hother => hfirst.right_behind hconsistent hother

theorem uncovered_of_left_nil (hleft : left = []) :
    handler.Uncovered address := by
  intro other hother hcovers
  have hmem := hconsistent.mem_symbols_iff.mp hother
  rw [hfirst.split, hleft, nil_append] at hmem
  exact absurd hcovers.key_le
    (not_le.mpr (hfirst.right_behind hconsistent hmem))

theorem backward_iff (hdisjoint : handler.Disjoint)
    (hinfo : handler.heap symbol = some info) :
    (∃ answer, handler.backward address (fuel + 2) (some symbol) =
        some answer ∧ handler.Finds address answer) ↔
      if address < info.finish then
        ∀ previous ∈ info.previous, ∀ before ∈ handler.heap previous,
          handler.Decides (address < before.finish) before address
      else
        handler.Uncovered address := by
  have hbehind := hfirst.behind
  rw [Handler.key_eq hinfo] at hbehind
  have hrange : InRangeQ address info.address info.finish = false := by
    rw [Bool.eq_false_iff]
    intro htrue
    exact absurd (UInt64.le_iff_toNat_le.mp (inRangeQ_iff.mp htrue).1)
      (not_le.mpr hbehind)
  by_cases hgoesOn : address < info.finish
  · rw [if_pos hgoesOn]
    have hstep : handler.backward address (fuel + 2) (some symbol) =
        handler.backward address (fuel + 1) info.previous :=
      Handler.walk_passes hinfo (decide_eq_true hgoesOn) hrange
    rw [hstep, hconsistent.previous_eq hfirst.split hinfo]
    rcases eq_nil_or_concat left with hleft | ⟨rest, previous, hleft⟩
    · have hnone := hfirst.uncovered_of_left_nil hconsistent hleft
      rw [hleft]
      constructor
      · rintro - previous hprevious
        cases hprevious
      · intro _
        exact ⟨none, rfl, hnone⟩
    · rw [concat_eq_append] at hleft
      have hlast := hfirst.lastBefore hconsistent hleft
      have hmem : previous ∈ handler.AddressToString := by
        rw [hlast.split]
        simp
      obtain ⟨before, hbefore⟩ := hconsistent.exists_info hmem
      rw [hleft, getLast?_concat, hlast.backward_eq hbefore]
      simp only [Option.some.injEq, exists_eq_left', Option.mem_def,
        forall_eq', hbefore]
      exact hlast.finds_iff hconsistent hdisjoint hbefore _
  · rw [if_neg hgoesOn]
    have hstep : handler.backward address (fuel + 2) (some symbol) =
        some none :=
      Handler.walk_stops hinfo (decide_eq_false hgoesOn)
    simp only [hstep, Option.some.injEq, exists_eq_left', Handler.Finds]

end FirstBehind

theorem Consistent.covers_start (hconsistent : Consistent handler)
    (hsymbol : symbol ∈ handler.AddressToString)
    (hinfo : handler.heap symbol = some info)
    (haddress : info.address = address) :
    handler.Finds address (some symbol) ↔ 0 < info.size := by
  subst haddress
  have hmem := hconsistent.mem_symbols_iff.mpr hsymbol
  simp only [Handler.Finds, hmem, true_and, Handler.covers_iff hinfo,
    SymbolInfo.Covers, UInt64.le_refl]
  omega

theorem Consistent.findsAddress_iff (hconsistent : Consistent handler)
    (hdisjoint : handler.Disjoint) {tree : SearchTree.Tree Pointer}
    (htree : tree.inorder = handler.AddressToString) (address : UInt64) :
    handler.FindsAddress tree address ↔ handler.Reliable tree address := by
  have hsorted := hconsistent.keys_ascending
  rw [← htree] at hsorted
  unfold Handler.FindsAddress Handler.Reliable Handler.FindAddress
  cases hfound : tree.findNearest handler.key address.toNat with
  | none =>
    have hempty := SearchTree.Tree.findNearest_eq_none_iff.mp hfound
    rw [hempty] at htree
    have hnone : handler.Uncovered address := by
      intro other hother
      have hmem := hconsistent.mem_symbols_iff.mp hother
      rw [← htree] at hmem
      cases hmem
    constructor
    · rintro - x hx
      cases hx
    · intro _
      exact ⟨none, rfl, hnone⟩
  | some x =>
    obtain ⟨left, right, hnearest⟩ :=
      SearchTree.Tree.findNearest_nearest hsorted hfound
    have hsplit := htree.symm.trans hnearest.split
    have hx : x ∈ handler.AddressToString := by
      rw [hsplit]
      simp
    obtain ⟨info, hinfo⟩ := hconsistent.exists_info hx
    have hkey := Handler.key_eq hinfo
    obtain ⟨fuel, hfuel⟩ : ∃ fuel,
        handler.AddressToString.length + 1 = fuel + 2 := by
      have hpositive := length_pos_of_mem hx
      exact ⟨handler.AddressToString.length - 1, by omega⟩
    simp only [hfuel, hinfo, Option.mem_def, Option.some.injEq, forall_eq']
    by_cases hequal : info.address = address
    · simp only [if_pos hequal, Option.some.injEq, exists_eq_left']
      exact hconsistent.covers_start hx hinfo hequal
    · simp only [if_neg hequal]
      by_cases hless : info.address < address
      · have hlt := UInt64.lt_iff_toNat_lt.mp hless
        have hlast : LastBefore handler address left x right :=
          ⟨hsplit, by omega, hnearest.below (by omega)⟩
        simp only [if_pos hless, hlast.forward_eq hconsistent hinfo,
          Option.some.injEq, exists_eq_left']
        exact hlast.finds_iff hconsistent hdisjoint hinfo _
      · have hbehind : address.toNat < handler.key x := by
          have hne : info.address.toNat ≠ address.toNat :=
            fun hsame => hequal (UInt64.toNat_inj.mp hsame)
          have hnot : ¬info.address.toNat < address.toNat :=
            fun hlt => hless (UInt64.lt_iff_toNat_lt.mpr hlt)
          omega
        have hfirst : FirstBehind handler address left x right :=
          ⟨hsplit, hbehind, hnearest.above hbehind⟩
        simp only [if_neg hless]
        exact hfirst.backward_iff hconsistent hdisjoint hinfo

end

/-- In every handler, whatever the shape of its address tree, a lookup is
right exactly when it is reliable. -/
theorem findAddress_iff {handler : Handler}
    (hrun : TransitionSystem.Reaches step LeavesAddressTree Handler.create
      handler)
    (hdisjoint : handler.Disjoint) (tree : SearchTree.Tree Pointer)
    (htree : tree.inorder = handler.AddressToString) (address : UInt64) :
    handler.FindsAddress tree address ↔
      handler.Reliable tree address := by
  have hconsistent : Consistent handler :=
    hrun.invariant
      (fun _ _ _ hbefore hleaves hstep => hbefore.step hleaves hstep)
      Consistent.create
  exact hconsistent.findsAddress_iff hdisjoint htree address

def addAB : List Move :=
  [.addSymbol symbolA 1 (none, none) 0 0,
    .addSymbol symbolB 2 (none, none) 1 1]

def addBA : List Move :=
  [.addSymbol symbolB 2 (none, none) 0 0,
    .addSymbol symbolA 1 (none, none) 0 0]

def treeAB : SearchTree.Tree Pointer :=
  .node .nil 1 (.node .nil 2 .nil)

def treeBA : SearchTree.Tree Pointer :=
  .node (.node .nil 1 .nil) 2 .nil

/-- The end of `a` belongs to `a` only if `b` was added first. -/
example :
    (after addAB).FindAddress treeAB 20 = some none ∧
      (after addBA).FindAddress treeBA 20 = some (some 1) := by
  decide

theorem reaches_after_addBA :
    TransitionSystem.Reaches step LeavesAddressTree Handler.create
      (after addBA) := by
  have hallowed : TransitionSystem.allowedLabels step leavesAddressTree addBA
      Handler.create = true := by decide
  have hrun : TransitionSystem.runLabels step addBA Handler.create =
      some (after addBA) := rfl
  exact TransitionSystem.reaches_of_allowedLabels leavesAddressTree_sound
    hallowed hrun

theorem disjoint_after_addBA : (after addBA).Disjoint := by
  have hsymbols : (after addBA).symbols = [1, 2] := by decide
  have hdistinct : ∀ address, (after addBA).Covers 1 address →
      ¬(after addBA).Covers 2 address := by
    rintro address ⟨first, hfirst, -, hbelow⟩ ⟨second, hsecond, habove, -⟩
    cases hfirst
    cases hsecond
    have hle := UInt64.le_iff_toNat_le.mp habove
    change 32 ≤ address.toNat at hle
    change (address.toNat : ℤ) < 16 + 4 at hbelow
    omega
  intro first hfirst second hsecond address hcovers hother
  rw [hsymbols] at hfirst hsecond
  simp only [mem_cons, not_mem_nil, or_false] at hfirst hsecond
  rcases hfirst with rfl | rfl <;> rcases hsecond with rfl | rfl
  · rfl
  · exact absurd hother (hdistinct address hcovers)
  · exact absurd hcovers (hdistinct address hother)
  · rfl

theorem findAddress_insideA : (after addBA).FindsAddress treeBA 18 := by
  apply (findAddress_iff reaches_after_addBA disjoint_after_addBA treeBA rfl
    18).mpr
  intro x hx info hinfo
  cases hx
  cases hinfo
  refine ⟨by decide, ?_⟩
  intro hempty
  exact absurd hempty (by decide)

theorem not_findAddress :
    ¬∀ handler, TransitionSystem.Reaches step LeavesAddressTree
          Handler.create handler →
        handler.Disjoint → ∀ tree : SearchTree.Tree Pointer,
        tree.inorder = handler.AddressToString → ∀ address,
        handler.FindsAddress tree address := by
  intro hall
  obtain ⟨answer, hanswer, hfinds⟩ := hall (after addBA) reaches_after_addBA
    disjoint_after_addBA treeBA rfl 20
  have hfirst : answer = some 1 := by
    have hrun : (after addBA).FindAddress treeBA 20 = some (some 1) := by
      decide
    exact Option.some.inj (hanswer.symm.trans hrun)
  subst hfirst
  obtain ⟨-, info, hinfo, hcovers⟩ := hfinds
  cases hinfo
  revert hcovers
  decide

end SymbolList
end CheatEngine
