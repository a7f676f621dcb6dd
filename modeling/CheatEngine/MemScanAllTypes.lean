import CheatEngine.MemScanBatches
import Mathlib.Data.Nat.Digits.Defs

/-!
# The next scan of all types

The results of a scan of all types are pairs of an address and a type.
`nextnextscanmemAll` goes through them page by page.  It collects the types of
the entries with the same address in flags, and checks all of them at once
when the next address is reached.
-/

namespace CheatEngine
namespace MemScanAllTypes

open List MemScanBatches

section

variable {α : Type*} {chosen other : Option α → α → Prop}

/-- The element is in the list and chosen there.  The first argument is what
stands before the list. -/
def Along (chosen : Option α → α → Prop) : Option α → List α → α → Prop
  | _, [], _ => False
  | previous, first :: rest, element =>
    (chosen previous first ∧ element = first) ∨
      Along chosen (some first) rest element

variable {previous : Option α} {element : α} {list : List α}

theorem along_append {left right : List α} :
    Along chosen previous (left ++ right) element ↔
      Along chosen previous left element ∨
        Along chosen (left.getLast?.or previous) right element := by
  induction left generalizing previous with
  | nil =>
    simp only [nil_append, getLast?_nil, Option.none_or, Along, false_or]
  | cons first rest ih =>
    have hlast : (first :: rest).getLast?.or previous =
        rest.getLast?.or (some first) := by
      cases rest with
      | nil => rfl
      | cons second more =>
        rw [getLast?_cons_cons]
        cases hcase : (second :: more).getLast? with
        | none => simp at hcase
        | some last => rfl
    rw [cons_append, Along, Along, ih, hlast, or_assoc]

theorem along_iff :
    Along chosen previous list element ↔
      ∃ before after, list = before ++ element :: after ∧
        chosen (before.getLast?.or previous) element := by
  constructor
  · intro halong
    induction list generalizing previous with
    | nil => exact halong.elim
    | cons first rest ih =>
      rcases halong with ⟨hchosen, rfl⟩ | hrest
      · exact ⟨[], rest, rfl, hchosen⟩
      · obtain ⟨before, after, rfl, hchosen⟩ := ih hrest
        refine ⟨first :: before, after, rfl, ?_⟩
        cases before with
        | nil => exact hchosen
        | cons second more =>
          rw [getLast?_cons_cons]
          cases hcase : (second :: more).getLast? with
          | none => simp at hcase
          | some last =>
            rw [hcase] at hchosen
            exact hchosen
  · rintro ⟨before, after, rfl, hchosen⟩
    exact along_append.mpr (.inr (.inl ⟨hchosen, rfl⟩))

theorem split_unique {relation : α → α → Prop} {before after : List α}
    {before' after' : List α} {element' : α}
    (hpairwise : list.Pairwise relation)
    (hsplit : list = before ++ element :: after)
    (hsplit' : list = before' ++ element' :: after')
    (hforward : ¬ relation element element')
    (hbackward : ¬ relation element' element) :
    before = before' ∧ element = element' := by
  have hpairwise' := hpairwise
  rw [hsplit, pairwise_append, pairwise_cons] at hpairwise
  rw [hsplit', pairwise_append, pairwise_cons] at hpairwise'
  rcases append_eq_append_iff.mp (hsplit.symm.trans hsplit') with
    ⟨middle, hbefore, hmiddle⟩ | ⟨middle, hbefore, hmiddle⟩
  · cases middle with
    | nil =>
      rw [append_nil] at hbefore
      exact ⟨hbefore.symm, (List.cons.inj hmiddle).1⟩
    | cons first rest =>
      obtain ⟨rfl, hafter⟩ := List.cons.inj hmiddle
      refine absurd (hpairwise.2.1.1 element' ?_) hforward
      rw [hafter]
      exact mem_append_right _ (mem_cons_self ..)
  · cases middle with
    | nil =>
      rw [append_nil] at hbefore
      exact ⟨hbefore, (List.cons.inj hmiddle).1.symm⟩
    | cons first rest =>
      obtain ⟨rfl, hafter⟩ := List.cons.inj hmiddle
      refine absurd (hpairwise'.2.1.1 element ?_) hbackward
      rw [hafter]
      exact mem_append_right _ (mem_cons_self ..)

theorem along_congr {previous' : Option α}
    (hcongr : ∀ before element after, list = before ++ element :: after →
      (chosen (before.getLast?.or previous) element ↔
        other (before.getLast?.or previous') element)) :
    Along chosen previous list element ↔
      Along other previous' list element := by
  rw [along_iff, along_iff]
  constructor
  · rintro ⟨before, after, hsplit, hchosen⟩
    exact ⟨before, after, hsplit,
      (hcongr before element after hsplit).mp hchosen⟩
  · rintro ⟨before, after, hsplit, hchosen⟩
    exact ⟨before, after, hsplit,
      (hcongr before element after hsplit).mpr hchosen⟩

theorem exists_along_cons {previous : Option α} {first : α} {rest : List α}
    {property : α → Prop} :
    (∃ element, Along chosen previous (first :: rest) element ∧
        property element) ↔
      (chosen previous first ∧ property first) ∨
        ∃ element, Along chosen (some first) rest element ∧
          property element := by
  constructor
  · rintro ⟨element, ⟨hchosen, rfl⟩ | hrest, hproperty⟩
    · exact .inl ⟨hchosen, hproperty⟩
    · exact .inr ⟨element, hrest, hproperty⟩
  · rintro (⟨hchosen, hproperty⟩ | ⟨element, hrest, hproperty⟩)
    · exact ⟨first, .inl ⟨hchosen, rfl⟩, hproperty⟩
    · exact ⟨element, .inr hrest, hproperty⟩

end

/-- The `bit` of a saved entry: a type from `vtByte` to `vtDouble`, or the
index of a custom type plus `$1000`. -/
inductive EntryType
  | vtByte
  | vtWord
  | vtDword
  | vtQword
  | vtSingle
  | vtDouble
  | custom (index : ℕ)
deriving DecidableEq, Repr

namespace EntryType

def isCustom : EntryType → Bool
  | custom _ => true
  | _ => false

def builtin : List EntryType :=
  [vtByte, vtWord, vtDword, vtQword, vtSingle, vtDouble]

end EntryType

structure Entry where
  address : ℕ
  type : EntryType
  oldvalue : List UInt8
deriving DecidableEq, Repr

abbrev Flags := EntryType → Bool

def cleared : Flags :=
  fun _ => false

/-! ## The scan -/

/-- The configuration of a scanner.  There are no custom types unless they are
scanned for. -/
structure AllScan where
  customtypecount : ℕ
  bytesize : ℕ → ℕ
  compareToSavedScan : Bool
  inverseScan : Bool
  floatscanWithoutExponents : Bool
  check : EntryType → ℕ → List UInt8 → List UInt8 → Bool
  getpointertoaddress : ℕ → List UInt8

namespace AllScan

variable (scan : AllScan)

def types : List EntryType :=
  EntryType.builtin ++ (List.range scan.customtypecount).map .custom

def variablesize : ℕ :=
  ((List.range scan.customtypecount).map scan.bytesize).foldl max 8

theorem le_foldl_max (list : List ℕ) (initial : ℕ) :
    initial ≤ list.foldl max initial ∧
      ∀ size ∈ list, size ≤ list.foldl max initial := by
  induction list generalizing initial with
  | nil => exact ⟨le_rfl, fun _ hmem => nomatch hmem⟩
  | cons first rest ih =>
    obtain ⟨hinitial, hrest⟩ := ih (max initial first)
    rw [foldl_cons]
    refine ⟨(le_max_left initial first).trans hinitial, ?_⟩
    intro size hsize
    rcases mem_cons.mp hsize with rfl | hsize
    · exact (le_max_right initial size).trans hinitial
    · exact hrest size hsize

theorem eight_le_variablesize : 8 ≤ scan.variablesize :=
  (le_foldl_max _ 8).1

def sizeOf : EntryType → ℕ
  | .vtByte => 1
  | .vtWord => 2
  | .vtDword => 4
  | .vtQword => 8
  | .vtSingle => 4
  | .vtDouble => 8
  | .custom index => scan.bytesize index

theorem sizeOf_le {type : EntryType} (htype : type ∈ scan.types) :
    scan.sizeOf type ≤ scan.variablesize := by
  have height := scan.eight_le_variablesize
  cases type with
  | custom index =>
    rcases mem_append.mp htype with hbuiltin | hcustom
    · simp [EntryType.builtin] at hbuiltin
    · obtain ⟨other, hother, hindex⟩ := mem_map.mp hcustom
      cases hindex
      exact (le_foldl_max _ 8).2 _ (mem_map_of_mem hother)
  | _ =>
    simp only [sizeOf]
    omega

/-- Neither NaN nor infinite, and with an exponent that is asked for. -/
def savableFloat (bias maximum mantissa size : ℕ) (value : List UInt8) :
    Bool :=
  let bits := Nat.ofDigits 256 ((value.take size).map UInt8.toNat)
  let exponent := bits / 2 ^ mantissa % (maximum + 1)
  exponent ≠ maximum &&
    !(scan.floatscanWithoutExponents && 0 < bits &&
      10 < ((bias : ℤ) - exponent).natAbs)

/-- The filter of `allSaveResult`, which the save routines of single and double
have too.  The one that `GenericSaveResult` has for custom types with floats is
missing in the scan of all types. -/
def savable : EntryType → List UInt8 → Bool
  | .vtSingle => scan.savableFloat 127 255 23 4
  | .vtDouble => scan.savableFloat 1023 2047 52 8
  | _ => fun _ => true

def oldvalue (entry : Entry) : List UInt8 :=
  if scan.compareToSavedScan then
    scan.getpointertoaddress entry.address
  else
    entry.oldvalue

/-- The check of one type, which looks at the bytes of that type, and the
filter of its save routine. -/
def accepts (entry : Entry) (newvalue : List UInt8) : Bool :=
  xor (scan.check entry.type entry.address
    (newvalue.take (scan.sizeOf entry.type)) (scan.oldvalue entry))
      scan.inverseScan &&
    scan.savable entry.type (newvalue.take (scan.sizeOf entry.type))

def markSame (flags : Flags) (entry : Entry) : Flags :=
  Function.update flags entry.type
    (if scan.compareToSavedScan && entry.type.isCustom then false else true)

def markNew (entry : Entry) : Flags :=
  Function.update cleared entry.type true

/-- `CheckRoutine` and `StoreResultRoutine` for the flagged types of the
address of `previous`, the last entry with that address. -/
def checkAndStore (newvalue : ℕ → List UInt8) (flags : Flags)
    (previous : Entry) : List Entry :=
  ((scan.types.filter flags).map fun type =>
    { previous with type }).filterMap fun entry =>
      if scan.accepts entry (newvalue entry.address) then
        some { entry with oldvalue := newvalue entry.address }
      else
        none

def scanEntries (newvalue : ℕ → List UInt8) :
    Flags → Entry → List Entry → List Entry
  | flags, previous, [] => scan.checkAndStore newvalue flags previous
  | flags, previous, entry :: rest =>
    if entry.address = previous.address then
      scanEntries newvalue (scan.markSame flags entry) entry rest
    else
      scan.checkAndStore newvalue flags previous ++
        scanEntries newvalue (markNew entry) entry rest

def scanBatch (memory : ProcessMemory) : List Entry → Option (List Entry)
  | [] => some []
  | first :: others =>
    let size := request Entry.address scan.variablesize first others
    match readprocessmemory memory first.address size with
    | none => some []
    | some newmemory =>
      if size ≤ 4096 then
        some (scan.scanEntries (fun address =>
          (newmemory.drop (address - first.address)).take
            scan.variablesize)
          (scan.markSame cleared first) first others)
      else
        none

def nextnextscanmemAll (memory : ProcessMemory) (entries : List Entry) :
    Option (List Entry) :=
  overBatches (scan.scanBatch memory)
    (batches Entry.address scan.variablesize entries.length entries)

def saved (memory : ProcessMemory) (entry : Entry) : Entry :=
  { entry with
    oldvalue := ByteMemory.load memory.byte entry.address scan.variablesize }

def Separately (memory : ProcessMemory) (entry : Entry) : Prop :=
  ∃ value, readprocessmemory memory entry.address (scan.sizeOf entry.type) =
      some value ∧
    scan.accepts entry value

/-- An entry is kept if and only if the scan for its type keeps it. -/
def ScansExactly (memory : ProcessMemory) (entries : List Entry) : Prop :=
  ∃ stored, scan.nextnextscanmemAll memory entries = some stored ∧
    ∀ result, result ∈ stored ↔
      ∃ entry ∈ entries, scan.Separately memory entry ∧
        result = scan.saved memory entry

/-! ## One batch -/

variable {scan}

/-- The entry sets its flag.  A custom type does so only where the address of
the entry before it in the batch is another one. -/
def MarkedInBatch (scan : AllScan) (previous : Option Entry)
    (entry : Entry) : Prop :=
  scan.compareToSavedScan → entry.type.isCustom →
    ∃ before ∈ previous, before.address ≠ entry.address

def ReportedInBatch (scan : AllScan) (newvalue : ℕ → List UInt8)
    (previous : Option Entry) (entry : Entry) : Prop :=
  scan.MarkedInBatch previous entry ∧
    scan.accepts entry (newvalue entry.address)

variable {newvalue : ℕ → List UInt8} {flags : Flags} {previous : Option Entry}
  {result entry : Entry} {rest entries : List Entry} {first : Entry}
  {others : List Entry} (memory : ProcessMemory)

theorem mem_checkAndStore {previous : Entry} :
    result ∈ scan.checkAndStore newvalue flags previous ↔
      ∃ type ∈ scan.types, flags type = true ∧
        scan.accepts { previous with type } (newvalue previous.address) ∧
        result =
          { previous with type, oldvalue := newvalue previous.address } := by
  unfold checkAndStore
  rw [mem_filterMap]
  constructor
  · rintro ⟨entry, hentry, hresult⟩
    obtain ⟨type, htype, rfl⟩ := mem_map.mp hentry
    obtain ⟨hknown, hflag⟩ := mem_filter.mp htype
    split at hresult
    · rename_i haccepts
      exact ⟨type, hknown, hflag, haccepts, (Option.some.inj hresult).symm⟩
    · cases hresult
  · rintro ⟨type, hknown, hflag, haccepts, rfl⟩
    refine ⟨{ previous with type }, mem_map.mpr
      ⟨type, mem_filter.mpr ⟨hknown, hflag⟩, rfl⟩, ?_⟩
    rw [if_pos haccepts]

theorem markSame_self
    (haddress : ∀ before ∈ previous, before.address = entry.address) :
    scan.markSame flags entry entry.type = true ↔
      scan.MarkedInBatch previous entry := by
  have hnone : ¬ ∃ before ∈ previous, before.address ≠ entry.address :=
    fun ⟨before, hbefore, hne⟩ => hne (haddress before hbefore)
  unfold markSame MarkedInBatch
  rw [Function.update_self]
  cases scan.compareToSavedScan <;> cases entry.type.isCustom <;>
    simp only [hnone, imp_false, not_true_eq_false, Bool.and_self,
      Bool.and_true, Bool.and_false, Bool.false_eq_true, ite_true, ite_false,
      not_false_eq_true, imp_true_iff]

theorem mem_checkAndStore_first (hknown : entry.type ∈ scan.types) :
    result ∈ scan.checkAndStore newvalue (scan.markSame cleared entry) entry ↔
      scan.ReportedInBatch newvalue none entry ∧
        result = { entry with oldvalue := newvalue entry.address } := by
  have hmarked : scan.markSame cleared entry entry.type = true ↔
      scan.MarkedInBatch none entry :=
    markSame_self fun before hbefore => nomatch hbefore
  rw [mem_checkAndStore]
  constructor
  · rintro ⟨type, htype, hflag, haccepts, rfl⟩
    by_cases hsame : type = entry.type
    · subst hsame
      exact ⟨⟨hmarked.mp hflag, haccepts⟩, rfl⟩
    · rw [markSame, Function.update_of_ne hsame] at hflag
      cases hflag
  · rintro ⟨hreported, rfl⟩
    exact ⟨entry.type, hknown, hmarked.mpr hreported.1, hreported.2, rfl⟩

/-- What the entries of a batch that come after `previous` have to satisfy:
every flag that they set is a new one, and they have the same bytes if they
have the same address. -/
structure Following (scan : AllScan) (flags : Flags) (previous : Entry)
    (rest : List Entry) : Prop where
  known : ∀ entry ∈ rest, entry.type ∈ scan.types
  unset : ∀ entry ∈ rest, entry.address = previous.address →
    flags entry.type = false
  same : ∀ entry ∈ rest, entry.address = previous.address →
    entry.oldvalue = previous.oldvalue
  distinct : rest.Pairwise fun first second =>
    first.address = second.address →
      first.type ≠ second.type ∧ second.oldvalue = first.oldvalue

theorem Following.tail {next : Flags} {previous : Entry}
    (hfollowing : scan.Following flags previous (entry :: rest))
    (hnext : ∀ type, type ≠ entry.type → next type = true →
      entry.address = previous.address ∧ flags type = true) :
    scan.Following next entry rest := by
  have hdistinct := pairwise_cons.mp hfollowing.distinct
  refine ⟨fun other hother => hfollowing.known other (.tail _ hother), ?_,
    fun other hother haddress =>
      (hdistinct.1 other hother haddress.symm).2, hdistinct.2⟩
  intro other hother haddress
  by_contra hset
  rw [Bool.not_eq_false] at hset
  have hprior := hnext other.type
    (hdistinct.1 other hother haddress.symm).1.symm hset
  have hunset := hfollowing.unset other (.tail _ hother)
    (haddress.trans hprior.1)
  rw [hprior.2] at hunset
  cases hunset

theorem mem_checkAndStore_new (hknown : entry.type ∈ scan.types) :
    result ∈ scan.checkAndStore newvalue (markNew entry) entry ↔
      scan.accepts entry (newvalue entry.address) ∧
        result = { entry with oldvalue := newvalue entry.address } := by
  rw [mem_checkAndStore]
  constructor
  · rintro ⟨type, htype, hflag, haccepts, rfl⟩
    by_cases hsame : type = entry.type
    · subst hsame
      exact ⟨haccepts, rfl⟩
    · rw [markNew, Function.update_of_ne hsame] at hflag
      cases hflag
  · rintro ⟨haccepts, rfl⟩
    exact ⟨entry.type, hknown, Function.update_self .., haccepts, rfl⟩

theorem mem_checkAndStore_same {previous : Entry}
    (hknown : entry.type ∈ scan.types)
    (haddress : entry.address = previous.address)
    (hunset : flags entry.type = false)
    (hsame : entry.oldvalue = previous.oldvalue) :
    result ∈ scan.checkAndStore newvalue (scan.markSame flags entry) entry ↔
      result ∈ scan.checkAndStore newvalue flags previous ∨
        (scan.ReportedInBatch newvalue (some previous) entry ∧
          result = { entry with oldvalue := newvalue entry.address }) := by
  have hwith : ∀ type, ({ entry with type } : Entry) =
      { previous with type } := by
    intro type
    rw [Entry.mk.injEq]
    exact ⟨haddress, rfl, hsame⟩
  have hmarked : scan.markSame flags entry entry.type = true ↔
      scan.MarkedInBatch (some previous) entry :=
    markSame_self fun before hbefore =>
      Option.some.inj hbefore ▸ haddress.symm
  rw [mem_checkAndStore, mem_checkAndStore]
  constructor
  · rintro ⟨type, htype, hflag, haccepts, rfl⟩
    by_cases htypes : type = entry.type
    · subst htypes
      exact .inr ⟨⟨hmarked.mp hflag, haccepts⟩, rfl⟩
    · rw [markSame, Function.update_of_ne htypes] at hflag
      rw [hwith, haddress] at haccepts
      refine .inl ⟨type, htype, hflag, haccepts, ?_⟩
      rw [Entry.mk.injEq]
      exact ⟨haddress, rfl, by rw [haddress]⟩
  · rintro (⟨type, htype, hflag, haccepts, rfl⟩ | ⟨hreported, rfl⟩)
    · have htypes : type ≠ entry.type := by
        intro heq
        rw [heq, hunset] at hflag
        cases hflag
      refine ⟨type, htype, ?_, ?_, ?_⟩
      · rw [markSame, Function.update_of_ne htypes, hflag]
      · rw [hwith, haddress]
        exact haccepts
      · rw [Entry.mk.injEq]
        exact ⟨haddress.symm, rfl, by rw [haddress]⟩
    · exact ⟨entry.type, hknown, hmarked.mpr hreported.1, hreported.2,
        rfl⟩

theorem mem_scanEntries {previous : Entry}
    (hfollowing : scan.Following flags previous rest) :
    result ∈ scan.scanEntries newvalue flags previous rest ↔
      result ∈ scan.checkAndStore newvalue flags previous ∨
        ∃ entry, Along (scan.ReportedInBatch newvalue) (some previous) rest
          entry ∧
          result = { entry with oldvalue := newvalue entry.address } := by
  induction rest generalizing flags previous with
  | nil => simp only [scanEntries, Along, false_and, exists_false, or_false]
  | cons entry rest ih =>
    have hknown := hfollowing.known entry (mem_cons_self ..)
    rw [exists_along_cons]
    by_cases haddress : entry.address = previous.address
    · have htail : scan.Following (scan.markSame flags entry) entry
          rest := by
        apply hfollowing.tail
        intro type htype hset
        rw [markSame, Function.update_of_ne htype] at hset
        exact ⟨haddress, hset⟩
      rw [scanEntries, if_pos haddress, ih htail,
        mem_checkAndStore_same hknown haddress
          (hfollowing.unset entry (mem_cons_self ..) haddress)
          (hfollowing.same entry (mem_cons_self ..) haddress),
        or_assoc]
    · have htail : scan.Following (markNew entry) entry rest := by
        apply hfollowing.tail
        intro type htype hset
        rw [markNew, Function.update_of_ne htype] at hset
        cases hset
      have hmarked : scan.MarkedInBatch (some previous) entry :=
        fun _ _ => ⟨previous, rfl, Ne.symm haddress⟩
      rw [scanEntries, if_neg haddress, mem_append, ih htail,
        mem_checkAndStore_new hknown, ReportedInBatch, and_iff_right hmarked]

/-! ## The whole list -/

/-- The entry sets its flag.  A custom type does so only where the entry
before it is in the same page and has another address. -/
def Marked (scan : AllScan) (previous : Option Entry) (entry : Entry) :
    Prop :=
  scan.compareToSavedScan → entry.type.isCustom →
    ∃ before ∈ previous, before.address < entry.address ∧
      pageOf before.address = pageOf (entry.address + scan.variablesize - 1)

def Reported (scan : AllScan) (memory : ProcessMemory)
    (previous : Option Entry) (entry : Entry) : Prop :=
  scan.Marked previous entry ∧
    ∃ value, readprocessmemory memory entry.address scan.variablesize =
        some value ∧
      scan.accepts entry value

/-- The results of a scan of all types: ascending addresses, each type of an
address once, and the same bytes for all types of an address. -/
structure SavedList (scan : AllScan) (entries : List Entry) : Prop where
  ascending : Ascending Entry.address scan.variablesize entries
  known : ∀ entry ∈ entries, entry.type ∈ scan.types
  distinct : entries.Pairwise fun first second =>
    first.address = second.address →
      first.type ≠ second.type ∧ second.oldvalue = first.oldvalue

theorem SavedList.sublist {part : List Entry}
    (hentries : scan.SavedList entries) (hsublist : part.Sublist entries) :
    scan.SavedList part :=
  ⟨hentries.ascending.sublist hsublist, fun entry hentry =>
    hentries.known entry (hsublist.subset hentry),
    hentries.distinct.sublist hsublist⟩

theorem SavedList.following (hbatch : scan.SavedList (first :: others)) :
    scan.Following (scan.markSame cleared first) first others := by
  have hdistinct := pairwise_cons.mp hbatch.distinct
  refine ⟨fun entry hentry => hbatch.known entry (.tail _ hentry), ?_,
    fun entry hentry haddress =>
      (hdistinct.1 entry hentry haddress.symm).2, hdistinct.2⟩
  intro entry hentry haddress
  have htype := (hdistinct.1 entry hentry haddress.symm).1
  rw [markSame, Function.update_of_ne htype.symm]
  rfl

def Detached (scan : AllScan) (previous : Option Entry)
    (entries : List Entry) : Prop :=
  ∀ before ∈ previous, ∀ first ∈ entries.head?,
    pageOf before.address ≠ pageOf (first.address + scan.variablesize - 1)

theorem marked_iff_inBatch {before after : List Entry}
    (hpage : OnePage Entry.address scan.variablesize first others)
    (hdetached : scan.Detached previous (first :: others))
    (hsplit : first :: others = before ++ entry :: after) :
    scan.MarkedInBatch (before.getLast?.or none) entry ↔
      scan.Marked (before.getLast?.or previous) entry := by
  have hexists : (∃ last ∈ before.getLast?.or none,
      last.address ≠ entry.address) ↔
        ∃ last ∈ before.getLast?.or previous,
          last.address < entry.address ∧ pageOf last.address =
            pageOf (entry.address + scan.variablesize - 1) := by
    cases before with
    | nil =>
      obtain ⟨rfl, rfl⟩ := List.cons.inj hsplit
      constructor
      · rintro ⟨last, hlast, -⟩
        cases hlast
      · rintro ⟨last, hlast, -, hsame⟩
        exact absurd hsame (hdetached last hlast first rfl)
    | cons head more =>
      obtain ⟨rfl, hothers⟩ := List.cons.inj hsplit
      have hordered : (first :: others).Pairwise
          fun left right : Entry => left.address ≤ right.address :=
        pairwise_cons.mpr ⟨hpage.first_le, hpage.ordered⟩
      obtain ⟨last, hlast⟩ : ∃ last, (first :: more).getLast? =
          some last := ⟨_, getLast?_cons⟩
      have hmem : last ∈ first :: more := mem_of_getLast? hlast
      have hfirst : first.address ≤ last.address := by
        apply hpage.first_le_mem
        rw [hsplit]
        exact mem_append_left _ hmem
      have hle : last.address ≤ entry.address := by
        rw [hsplit, pairwise_append] at hordered
        exact hordered.2.2 last hmem entry (mem_cons_self ..)
      have hends : pageOf (entry.address + scan.variablesize - 1) =
          pageOf first.address := by
        apply hpage.ends
        rw [hothers]
        exact mem_append_right _ (mem_cons_self ..)
      have hpages : pageOf last.address =
          pageOf (entry.address + scan.variablesize - 1) := by
        have height := scan.eight_le_variablesize
        unfold pageOf at hends ⊢
        omega
      rw [hlast]
      simp only [Option.some_or, Option.mem_some_iff, exists_eq_left',
        hpages, and_true]
      omega
  unfold MarkedInBatch Marked
  rw [hexists]

theorem mem_scanBatch
    (hpage : OnePage Entry.address scan.variablesize first others)
    (hsaved : scan.SavedList (first :: others))
    (hdetached : scan.Detached previous (first :: others))
    (hfits : scan.variablesize ≤ 4096 ∨
      readprocessmemory memory first.address scan.variablesize = none) :
    ∃ stored, scan.scanBatch memory (first :: others) = some stored ∧
      ∀ result, result ∈ stored ↔
        ∃ entry, Along (scan.Reported memory) previous (first :: others)
          entry ∧ result = scan.saved memory entry := by
  have hpos : 0 < scan.variablesize := by
    have height := scan.eight_le_variablesize
    omega
  have hread : ∀ entry ∈ first :: others, _ := fun entry hentry =>
    hpage.read_eq hpos memory hentry
  have hmem : ∀ entry, Along (scan.Reported memory) previous
      (first :: others) entry → entry ∈ first :: others := by
    intro entry halong
    obtain ⟨before, after, hsplit, -⟩ := along_iff.mp halong
    rw [hsplit]
    exact mem_append_right _ (mem_cons_self ..)
  rw [scanBatch]
  cases hbatch : readprocessmemory memory first.address
      (request Entry.address scan.variablesize first others) with
  | none =>
    refine ⟨[], rfl, fun result =>
      (iff_false_left not_mem_nil).mpr ?_⟩
    rintro ⟨entry, halong, -⟩
    obtain ⟨before, after, -, -, value, hvalue, -⟩ := along_iff.mp halong
    rw [hread entry (hmem entry halong), hbatch] at hvalue
    cases hvalue
  | some newmemory =>
    have hsize : scan.variablesize ≤ 4096 := by
      rcases hfits with hsize | hnone
      · exact hsize
      · have hfirst := hread first (mem_cons_self ..)
        rw [hnone, hbatch] at hfirst
        cases hfirst
    have hroom := hpage.request_le hsize
    simp only [if_pos hroom, Option.some.injEq, exists_eq_left']
    intro result
    generalize hnewvalue : (fun address => (newmemory.drop
      (address - first.address)).take scan.variablesize) = newvalue
    have hvalues : ∀ entry ∈ first :: others,
        readprocessmemory memory entry.address scan.variablesize =
          some (newvalue entry.address) := by
      intro entry hentry
      rw [hread entry hentry, hbatch, ← hnewvalue]
      rfl
    have hreported : ∀ before entry after,
        first :: others = before ++ entry :: after →
          (scan.ReportedInBatch newvalue (before.getLast?.or none) entry ↔
            scan.Reported memory (before.getLast?.or previous) entry) := by
      intro before entry after hsplit
      have hentry : entry ∈ first :: others := by
        rw [hsplit]
        exact mem_append_right _ (mem_cons_self ..)
      rw [ReportedInBatch, Reported,
        marked_iff_inBatch hpage hdetached hsplit, hvalues entry hentry]
      simp only [Option.some.injEq, exists_eq_left']
    rw [mem_scanEntries hsaved.following,
      mem_checkAndStore_first (hsaved.known first (mem_cons_self ..))]
    refine (@exists_along_cons _ (scan.ReportedInBatch newvalue) none first
      others fun entry => result =
        { entry with oldvalue := newvalue entry.address }).symm.trans ?_
    apply exists_congr
    intro entry
    rw [along_congr hreported]
    apply and_congr_right
    intro halong
    rw [saved, ← eq_load_of_read (hvalues entry (hmem entry halong))]

theorem detached_dropWhile (hsaved : scan.SavedList (first :: rest)) :
    scan.Detached
      ((first :: rest.takeWhile (endsIn Entry.address scan.variablesize
        (pageOf first.address))).getLast?.or previous)
      (rest.dropWhile (endsIn Entry.address scan.variablesize
        (pageOf first.address))) := by
  have hpage := onePage_takeWhile hsaved.ascending
  intro last hlast next hnext hsame
  rw [getLast?_cons, Option.some_or, Option.mem_some_iff] at hlast
  have hmem : last ∈ first :: rest.takeWhile (endsIn Entry.address
      scan.variablesize (pageOf first.address)) := by
    rw [← hlast]
    exact mem_of_getLast? (getLast?_cons ..)
  have hpages : pageOf last.address = pageOf first.address := by
    rcases mem_cons.mp hmem with rfl | hother
    · rfl
    · have hends := hpage.ends last hother
      have hfirst := hpage.first_le last hother
      have height := scan.eight_le_variablesize
      unfold pageOf at hends ⊢
      omega
  have hnot := head?_dropWhile_not (endsIn Entry.address
    scan.variablesize (pageOf first.address)) rest
  rw [Option.mem_def] at hnext
  rw [hnext] at hnot
  have hinside := hsaved.ascending.inside next (.tail _
    ((dropWhile_sublist _).subset (mem_of_head? hnext)))
  have hends := (endsIn_iff hinside).mpr (hpages.symm.trans hsame)
  rw [hnot] at hends
  cases hends

theorem mem_batches {fuel : ℕ} (hsaved : scan.SavedList entries)
    (hdetached : scan.Detached previous entries)
    (hfuel : entries.length ≤ fuel)
    (hfits : scan.variablesize ≤ 4096 ∨ ∀ entry ∈ entries,
      readprocessmemory memory entry.address scan.variablesize = none) :
    ∃ stored, overBatches (scan.scanBatch memory)
        (batches Entry.address scan.variablesize fuel entries) = some stored ∧
      ∀ result, result ∈ stored ↔
        ∃ entry, Along (scan.Reported memory) previous entries entry ∧
          result = scan.saved memory entry := by
  induction fuel generalizing previous entries with
  | zero =>
    rw [length_eq_zero_iff.mp (Nat.le_zero.mp hfuel)]
    refine ⟨[], rfl, fun result =>
      (iff_false_left not_mem_nil).mpr ?_⟩
    rintro ⟨entry, halong, -⟩
    exact halong
  | succ fuel ih =>
    cases entries with
    | nil =>
      refine ⟨[], rfl, fun result =>
        (iff_false_left not_mem_nil).mpr ?_⟩
      rintro ⟨entry, halong, -⟩
      exact halong
    | cons first rest =>
      have htake := takeWhile_sublist (endsIn Entry.address
        scan.variablesize (pageOf first.address)) (l := rest)
      have hdrop := dropWhile_sublist (endsIn Entry.address
        scan.variablesize (pageOf first.address)) (l := rest)
      have hlength := hdrop.length_le
      rw [length_cons] at hfuel
      obtain ⟨found, hfound, hmemFound⟩ := mem_scanBatch memory
        (onePage_takeWhile hsaved.ascending)
        (hsaved.sublist (htake.cons_cons first)) hdetached
        (hfits.imp_right fun hnone =>
          hnone first (mem_cons_self ..))
      obtain ⟨more, hmore, hmemMore⟩ := ih
        (hsaved.sublist (hdrop.cons first))
        (detached_dropWhile hsaved) (by omega)
        (hfits.imp_right fun hnone entry hentry =>
          hnone entry (.tail _ (hdrop.subset hentry)))
      refine ⟨found ++ more, ?_, ?_⟩
      · simp only [batches, overBatches, hfound, hmore]
      · intro result
        rw [mem_append, hmemFound, hmemMore, ← exists_or]
        apply exists_congr
        intro entry
        rw [← or_and_right, ← along_append, cons_append,
          takeWhile_append_dropWhile]

theorem nextnextscanmemAll_long (hsaved : scan.SavedList entries)
    (hlong : 4096 < scan.variablesize) (hentry : entry ∈ entries)
    (hread : readprocessmemory memory entry.address scan.variablesize ≠ none) :
    scan.nextnextscanmemAll memory entries = none := by
  apply overBatches_long hsaved.ascending hlong hentry
  obtain ⟨newmemory, hnew⟩ := Option.ne_none_iff_exists'.mp hread
  rw [scanBatch, request_nil, hnew]
  exact if_neg (by omega)

theorem accepts_take {value : List UInt8} {size : ℕ}
    (hsize : scan.sizeOf entry.type ≤ size) :
    scan.accepts entry (value.take size) = scan.accepts entry value := by
  unfold accepts
  rw [take_take, min_eq_left hsize]

theorem separately_iff {memory : ProcessMemory} {value : List UInt8}
    (hknown : entry.type ∈ scan.types)
    (hread : readprocessmemory memory entry.address scan.variablesize =
      some value) :
    scan.Separately memory entry ↔ scan.accepts entry value := by
  have hsize := scan.sizeOf_le hknown
  rw [Separately, read_shorter hsize hread]
  simp only [Option.some.injEq, exists_eq_left', accepts_take le_rfl]

/-- The longest value can be read at the address, and the flag is set. -/
def Found (scan : AllScan) (memory : ProcessMemory)
    (previous : Option Entry) (entry : Entry) : Prop :=
  readprocessmemory memory entry.address scan.variablesize ≠ none ∧
    scan.Marked previous entry

theorem reported_iff {memory : ProcessMemory}
    (hknown : entry.type ∈ scan.types) :
    scan.Reported memory previous entry ↔
      scan.Separately memory entry ∧ scan.Found memory previous entry := by
  unfold Reported Found
  constructor
  · rintro ⟨hmarked, value, hread, haccepts⟩
    refine ⟨(separately_iff hknown hread).mpr haccepts, ?_, hmarked⟩
    rw [hread]
    exact Option.some_ne_none value
  · rintro ⟨hseparately, hread, hmarked⟩
    obtain ⟨value, hvalue⟩ := Option.ne_none_iff_exists'.mp hread
    exact ⟨hmarked, value, hvalue,
      (separately_iff hknown hvalue).mp hseparately⟩

/-- The scan of all types agrees with the scans of the single types if and
only if the values fit in the buffer and no entry that its own scan keeps is
lost: because fewer bytes than the longest value can be read there, or as a
custom type whose flag is cleared instead of set. -/
theorem nextnextscanmemAll_exact_iff (memory : ProcessMemory)
    {entries : List Entry} (hsaved : scan.SavedList entries) :
    scan.ScansExactly memory entries ↔
      (scan.variablesize ≤ 4096 ∨ ∀ entry ∈ entries,
        readprocessmemory memory entry.address scan.variablesize = none) ∧
      ∀ before entry after, entries = before ++ entry :: after →
        scan.Separately memory entry →
          scan.Found memory before.getLast? entry := by
  by_cases hfits : scan.variablesize ≤ 4096 ∨ ∀ entry ∈ entries,
      readprocessmemory memory entry.address scan.variablesize = none
  · have hdetached : scan.Detached none entries :=
      fun _ hbefore => nomatch hbefore
    obtain ⟨stored, hstored, hmem⟩ :=
      mem_batches memory hsaved hdetached le_rfl hfits
    rw [and_iff_right hfits, ScansExactly, nextnextscanmemAll, hstored]
    simp only [Option.some.injEq, exists_eq_left', hmem]
    constructor
    · intro hexact before entry after hsplit hseparately
      have hentry : entry ∈ entries := by
        rw [hsplit]
        exact mem_append_right _ (mem_cons_self ..)
      obtain ⟨other, halong, hsame⟩ := (hexact _).mpr
        ⟨entry, hentry, hseparately, rfl⟩
      obtain ⟨before', after', hsplit', hreported⟩ := along_iff.mp halong
      obtain ⟨haddress, htype, -⟩ := Entry.mk.inj hsame
      obtain ⟨rfl, rfl⟩ := split_unique hsaved.distinct hsplit hsplit'
        (fun hrelation => (hrelation haddress).1 htype)
        (fun hrelation => (hrelation haddress.symm).1 htype.symm)
      rw [Option.or_none] at hreported
      exact ((reported_iff (hsaved.known entry hentry)).mp hreported).2
    · intro hfound result
      constructor
      · rintro ⟨entry, halong, rfl⟩
        obtain ⟨before, after, hsplit, hreported⟩ := along_iff.mp halong
        have hentry : entry ∈ entries := by
          rw [hsplit]
          exact mem_append_right _ (mem_cons_self ..)
        exact ⟨entry, hentry,
          ((reported_iff (hsaved.known entry hentry)).mp hreported).1, rfl⟩
      · rintro ⟨entry, hentry, hseparately, rfl⟩
        obtain ⟨before, after, hsplit⟩ := append_of_mem hentry
        refine ⟨entry, along_iff.mpr ⟨before, after, hsplit, ?_⟩, rfl⟩
        rw [Option.or_none, reported_iff (hsaved.known entry hentry)]
        exact ⟨hseparately, hfound before entry after hsplit hseparately⟩
  · rw [iff_false_right (fun hboth => hfits hboth.1)]
    rintro ⟨stored, hstored, -⟩
    push Not at hfits
    obtain ⟨hlong, entry, hentry, hread⟩ := hfits
    rw [nextnextscanmemAll_long memory hsaved hlong hentry hread] at hstored
    cases hstored

/-- Is the value the one that was saved?  There is a custom type of four
bytes, and the values of the first scan are zeroes. -/
def unchanged (compareToSavedScan : Bool) : AllScan :=
  { customtypecount := 1
    bytesize := fun _ => 4
    compareToSavedScan
    inverseScan := false
    floatscanWithoutExponents := false
    check := fun _ _ newvalue oldvalue =>
      newvalue == oldvalue.take newvalue.length
    getpointertoaddress := fun _ => List.replicate 8 0 }

def zeroEntry (address : ℕ) (type : EntryType) : Entry :=
  { address, type, oldvalue := List.replicate 8 0 }

def zeroEntries : List Entry :=
  [zeroEntry 0x1000 .vtByte, zeroEntry 0x1000 (.custom 0),
    zeroEntry 0x1ffe (.custom 0)]

theorem zeroEntries_exact :
    (unchanged false).ScansExactly zeroMemory zeroEntries :=
  (nextnextscanmemAll_exact_iff zeroMemory
    ⟨⟨by decide, by decide⟩, by decide, by decide⟩).mpr
      ⟨.inl (by decide), fun _ _ _ _ _ => ⟨read_zeroMemory _ _, nofun⟩⟩

theorem customEntry_not_exact :
    ¬ (unchanged true).ScansExactly zeroMemory
      [zeroEntry 0x1000 (.custom 0)] := by
  rintro ⟨stored, hstored, hmem⟩
  have hnothing : (unchanged true).nextnextscanmemAll zeroMemory
      [zeroEntry 0x1000 (.custom 0)] = some [] := by decide
  rw [hnothing, Option.some.injEq] at hstored
  subst hstored
  have hkept : (unchanged true).Separately zeroMemory
      (zeroEntry 0x1000 (.custom 0)) :=
    ⟨List.replicate 4 0, by decide, by decide⟩
  exact not_mem_nil
    ((hmem _).mpr ⟨_, mem_singleton_self _, hkept, rfl⟩)

end AllScan

end MemScanAllTypes
end CheatEngine
