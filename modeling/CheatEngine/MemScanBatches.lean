import CheatEngine.ByteMemory
import CheatEngine.MemScanResults
import Mathlib.Data.List.TakeWhile

/-!
# Next scans that read page by page

A repeated next scan reads the saved addresses of one page with a single
`readprocessmemory` into a buffer of 4096 bytes.  A batch starts with the
first address that is left and takes the following ones as long as their
values end in the page of that address.  The memory of the process can be
read or not page by page.
-/

namespace CheatEngine
namespace MemScanBatches

open List

def pageOf (address : ℕ) : ℕ :=
  address / 4096

structure ProcessMemory where
  byte : ℕ → UInt8
  readable : ℕ → Bool

def readprocessmemory (memory : ProcessMemory) (address size : ℕ) :
    Option (List UInt8) :=
  if (List.range size).all fun k => memory.readable (pageOf (address + k)) then
    some (ByteMemory.load memory.byte address size)
  else
    none

variable {memory : ProcessMemory}

theorem read_of_samePage {address size : ℕ} (hsize : 0 < size)
    (hpage : pageOf (address + (size - 1)) = pageOf address) :
    readprocessmemory memory address size =
      if memory.readable (pageOf address) then
        some (ByteMemory.load memory.byte address size)
      else
        none := by
  have hinside : ∀ k < size, pageOf (address + k) = pageOf address := by
    intro k hk
    unfold pageOf at hpage ⊢
    omega
  have hall : (List.range size).all
      (fun k => memory.readable (pageOf (address + k))) =
        memory.readable (pageOf address) := by
    rw [Bool.eq_iff_iff, all_eq_true]
    constructor
    · intro hread
      have hfirst := hread 0 (mem_range.mpr hsize)
      rwa [Nat.add_zero] at hfirst
    · intro hread k hk
      rw [hinside k (mem_range.mp hk), hread]
  rw [readprocessmemory, hall]

theorem take_drop_load (byte : ℕ → UInt8) (base : ℕ) {offset size total : ℕ}
    (hinside : offset + size ≤ total) :
    ((ByteMemory.load byte base total).drop offset).take size =
      ByteMemory.load byte (base + offset) size := by
  apply ext_getElem?
  intro k
  by_cases hk : k < size
  · rw [getElem?_take_of_lt hk, getElem?_drop,
      ByteMemory.getElem?_load byte base (by omega),
      ByteMemory.getElem?_load byte (base + offset) hk, Nat.add_assoc]
  · rw [getElem?_eq_none, getElem?_eq_none]
    · rw [ByteMemory.length_load]
      omega
    · rw [length_take]
      omega

theorem eq_load_of_read {address size : ℕ} {value : List UInt8}
    (hread : readprocessmemory memory address size = some value) :
    value = ByteMemory.load memory.byte address size := by
  unfold readprocessmemory at hread
  split at hread
  · exact (Option.some.inj hread).symm
  · cases hread

theorem read_shorter {address size total : ℕ} {value : List UInt8}
    (hsize : size ≤ total)
    (hread : readprocessmemory memory address total = some value) :
    readprocessmemory memory address size = some (value.take size) := by
  have hvalue := eq_load_of_read hread
  have hinside : 0 + size ≤ total := by omega
  have htake := take_drop_load memory.byte address hinside
  rw [drop_zero, Nat.add_zero, ← hvalue] at htake
  unfold readprocessmemory at hread ⊢
  split at hread
  · rename_i hall
    rw [all_eq_true] at hall
    rw [if_pos, htake]
    rw [all_eq_true]
    intro k hk
    rw [mem_range] at hk
    exact hall k (mem_range.mpr (by omega))
  · cases hread

def zeroMemory : ProcessMemory :=
  { byte := fun _ => 0, readable := fun _ => true }

theorem read_zeroMemory (address size : ℕ) :
    readprocessmemory zeroMemory address size ≠ none := by
  have hreadable : (List.range size).all
      (fun k => zeroMemory.readable (pageOf (address + k))) = true :=
    all_eq_true.mpr fun _ _ => rfl
  rw [readprocessmemory, if_pos hreadable]
  exact Option.some_ne_none _

/-! ## Batches -/

section

variable {Entry : Type*} (address : Entry → ℕ) (vsize : ℕ)

def endsIn (page : ℕ) (entry : Entry) : Bool :=
  page = pageOf ((address entry + vsize - 1) % 2 ^ 64)

/-- The batches of the entries; the first argument bounds their number. -/
def batches : ℕ → List Entry → List (List Entry)
  | 0, _ => []
  | _ + 1, [] => []
  | fuel + 1, entry :: rest =>
    let inPage := endsIn address vsize (pageOf (address entry))
    (entry :: rest.takeWhile inPage) ::
      batches fuel (rest.dropWhile inPage)

def request (first : Entry) (others : List Entry) : ℕ :=
  address ((first :: others).getLast (cons_ne_nil first others)) -
    address first + vsize

variable {address vsize}

theorem request_nil (entry : Entry) :
    request address vsize entry [] = vsize := by
  rw [request, getLast_singleton, Nat.sub_self, Nat.zero_add]

theorem flatten_batches {fuel : ℕ} {entries : List Entry}
    (hfuel : entries.length ≤ fuel) :
    (batches address vsize fuel entries).flatten = entries := by
  induction fuel generalizing entries with
  | zero =>
    rw [length_eq_zero_iff.mp (Nat.le_zero.mp hfuel)]
    rfl
  | succ fuel ih =>
    cases entries with
    | nil => rfl
    | cons entry rest =>
      have hrest := length_dropWhile_le
        (endsIn address vsize (pageOf (address entry))) rest
      rw [length_cons] at hfuel
      rw [batches, flatten_cons, ih (by omega), cons_append,
        takeWhile_append_dropWhile]

/-- The addresses are in ascending order, and the values lie in the address
space. -/
structure Ascending (address : Entry → ℕ) (vsize : ℕ)
    (entries : List Entry) : Prop where
  ordered : entries.Pairwise fun first second => address first ≤ address second
  inside : ∀ entry ∈ entries, address entry + vsize ≤ 2 ^ 64

structure OnePage (address : Entry → ℕ) (vsize : ℕ) (first : Entry)
    (others : List Entry) : Prop where
  first_le : ∀ entry ∈ others, address first ≤ address entry
  ordered : others.Pairwise fun first second => address first ≤ address second
  ends : ∀ entry ∈ others,
    pageOf (address entry + vsize - 1) = pageOf (address first)

variable {entries : List Entry} {entry : Entry} {Result : Type*}
  {scanBatch : List Entry → Option (List Result)}

theorem Ascending.sublist {part : List Entry}
    (hentries : Ascending address vsize entries)
    (hsublist : part.Sublist entries) :
    Ascending address vsize part :=
  ⟨hentries.ordered.sublist hsublist, fun entry hentry =>
    hentries.inside entry (hsublist.subset hentry)⟩

theorem endsIn_iff {page : ℕ} (hinside : address entry + vsize ≤ 2 ^ 64) :
    endsIn address vsize page entry ↔
      page = pageOf (address entry + vsize - 1) := by
  have hwrap : (address entry + vsize - 1) % 2 ^ 64 =
      address entry + vsize - 1 :=
    Nat.mod_eq_of_lt (by omega)
  rw [endsIn, decide_eq_true_eq, hwrap]

theorem onePage_takeWhile {rest : List Entry}
    (hentries : Ascending address vsize (entry :: rest)) :
    OnePage address vsize entry
      (rest.takeWhile (endsIn address vsize (pageOf (address entry)))) := by
  have hordered := pairwise_cons.mp hentries.ordered
  have hsublist := takeWhile_sublist
    (endsIn address vsize (pageOf (address entry))) (l := rest)
  refine ⟨fun other hother => hordered.1 other (hsublist.subset hother),
    hordered.2.sublist hsublist, fun other hother => ?_⟩
  have hinside := hentries.inside other
    (mem_cons_of_mem entry (hsublist.subset hother))
  exact ((endsIn_iff hinside).mp (mem_takeWhile_imp hother)).symm

theorem onePage_of_mem_batches {fuel : ℕ}
    (hentries : Ascending address vsize entries) {batch : List Entry}
    (hbatch : batch ∈ batches address vsize fuel entries) :
    ∃ first others, batch = first :: others ∧
      OnePage address vsize first others := by
  induction fuel generalizing entries with
  | zero => cases hbatch
  | succ fuel ih =>
    cases entries with
    | nil => cases hbatch
    | cons entry rest =>
      rcases mem_cons.mp hbatch with rfl | htail
      · exact ⟨entry, _, rfl, onePage_takeWhile hentries⟩
      · have hsublist := dropWhile_sublist
          (endsIn address vsize (pageOf (address entry))) (l := rest)
        exact ih (hentries.sublist (hsublist.cons entry)) htail

namespace OnePage

variable {first : Entry} {others : List Entry}

variable {entry : Entry}

section

variable (hpage : OnePage address vsize first others)

include hpage

theorem first_le_mem (hentry : entry ∈ first :: others) :
    address first ≤ address entry := by
  rcases mem_cons.mp hentry with rfl | hother
  · exact le_rfl
  · exact hpage.first_le entry hother

theorem le_last (hentry : entry ∈ first :: others) :
    address entry ≤
      address ((first :: others).getLast (cons_ne_nil first others)) := by
  have hordered : (first :: others).Pairwise
      fun first second => address first ≤ address second :=
    pairwise_cons.mpr ⟨hpage.first_le, hpage.ordered⟩
  exact hordered.rel_getLast_of_rel_getLast_getLast hentry le_rfl

theorem last_ends (hothers : others ≠ []) :
    pageOf (address ((first :: others).getLast
      (cons_ne_nil first others)) + vsize - 1) =
        pageOf (address first) := by
  rw [getLast_cons hothers]
  exact hpage.ends _ (getLast_mem hothers)

theorem eq_nil_of_long (hlong : 4096 < vsize) : others = [] := by
  cases others with
  | nil => rfl
  | cons other rest =>
    have hends := hpage.ends other (mem_cons_self ..)
    have hle := hpage.first_le other (mem_cons_self ..)
    unfold pageOf at hends
    omega

theorem request_le (hvsize : vsize ≤ 4096) :
    request address vsize first others ≤ 4096 := by
  unfold request
  cases hcase : others with
  | nil =>
    rw [getLast_singleton]
    omega
  | cons other rest =>
    have hends := hpage.last_ends (by rw [hcase]; exact cons_ne_nil _ _)
    simp only [hcase] at hends
    unfold pageOf at hends
    omega

theorem read_eq (hvsize : 0 < vsize) (memory : ProcessMemory)
    (hentry : entry ∈ first :: others) :
    readprocessmemory memory (address entry) vsize =
      (readprocessmemory memory (address first)
        (request address vsize first others)).map fun newmemory =>
          (newmemory.drop (address entry - address first)).take vsize := by
  have hfirst := hpage.first_le_mem hentry
  have hlast := hpage.le_last hentry
  have hinside : address entry - address first + vsize ≤
      request address vsize first others := by
    unfold request
    omega
  have htake := take_drop_load memory.byte (address first) hinside
  rw [Nat.add_sub_cancel' hfirst] at htake
  by_cases hothers : others = []
  · subst hothers
    rw [mem_singleton] at hentry
    subst hentry
    rw [request_nil] at htake ⊢
    unfold readprocessmemory
    split
    · rw [Option.map_some, htake]
    · rfl
  · have hends := hpage.last_ends hothers
    have hbatch : pageOf (address first +
        (request address vsize first others - 1)) =
          pageOf (address first) := by
      rw [← hends]
      congr 1
      unfold request
      omega
    have hvalue : pageOf (address entry + (vsize - 1)) =
        pageOf (address entry) ∧
          pageOf (address entry) = pageOf (address first) := by
      unfold pageOf at hends ⊢
      omega
    rw [read_of_samePage hvsize hvalue.1,
      read_of_samePage (by omega) hbatch, hvalue.2]
    split
    · rw [Option.map_some, htake]
    · rfl

end

end OnePage

/-- What is stored for the batches, one after the other.  Nothing is known
any more when one of them does not fit in the buffer. -/
def overBatches {Result : Type*}
    (scanBatch : List Entry → Option (List Result)) :
    List (List Entry) → Option (List Result)
  | [] => some []
  | batch :: rest =>
    match scanBatch batch, overBatches scanBatch rest with
    | some found, some more => some (found ++ more)
    | _, _ => none

theorem overBatches_eq {found : List Entry → List Result}
    {groups : List (List Entry)}
    (hgroups : ∀ batch ∈ groups, scanBatch batch = some (found batch)) :
    overBatches scanBatch groups = some (groups.flatMap found) := by
  induction groups with
  | nil => rfl
  | cons batch rest ih =>
    have hbatch := hgroups batch (mem_cons_self ..)
    have hrest := ih fun other hother =>
      hgroups other (mem_cons_of_mem batch hother)
    simp only [overBatches, hbatch, hrest, flatMap_cons]

theorem overBatches_eq_none {groups : List (List Entry)} {batch : List Entry}
    (hmem : batch ∈ groups) (hbatch : scanBatch batch = none) :
    overBatches scanBatch groups = none := by
  induction groups with
  | nil => cases hmem
  | cons other rest ih =>
    rw [overBatches]
    rcases mem_cons.mp hmem with rfl | hrest
    · rw [hbatch]
    · rw [ih hrest]
      cases scanBatch other <;> rfl

theorem overBatches_long (hentries : Ascending address vsize entries)
    (hlong : 4096 < vsize) (hentry : entry ∈ entries)
    (hbatch : scanBatch [entry] = none) :
    overBatches scanBatch
      (batches address vsize entries.length entries) = none := by
  rw [← @flatten_batches _ address vsize entries.length entries le_rfl]
    at hentry
  obtain ⟨batch, hmem, hinside⟩ := mem_flatten.mp hentry
  obtain ⟨first, others, rfl, hpage⟩ := onePage_of_mem_batches hentries hmem
  have hothers := hpage.eq_nil_of_long hlong
  subst hothers
  rw [mem_singleton] at hinside
  subst hinside
  exact overBatches_eq_none hmem hbatch

end

/-- A saved address, with the value that was saved for it. -/
structure Entry where
  address : ℕ
  oldvalue : List UInt8
deriving DecidableEq, Repr

/-- The configuration of a scanner.  Checks that change letters to upper case
in the buffer give the same answer for the changed bytes. -/
structure NextScan where
  variableType : ScanResults.VariableType
  variablesize : ℕ
  variablesize_pos : 0 < variablesize
  compareToSavedScan : Bool
  inverseScan : Bool
  checkroutine : ℕ → List UInt8 → List UInt8 → Bool
  getpointertoaddress : ℕ → ScanResults.VariableType → List UInt8

namespace NextScan

open ScanResults (VariableType)

variable (scan : NextScan)

def valuetype : VariableType :=
  match scan.variableType with
  | .vtByte => .vtByte
  | .vtWord => .vtWord
  | .vtDword => .vtDword
  | .vtSingle => .vtSingle
  | .vtDouble => .vtDouble
  | .vtQword => .vtQword
  | .vtAll => .vtAll
  | .vtCustom =>
    match scan.variablesize with
    | 1 => .vtByte
    | 2 => .vtWord
    | 4 => .vtDword
    | 8 => .vtQword
    | _ => .vtDword
  | _ => .vtDword

def oldvalue (entry : Entry) : List UInt8 :=
  if scan.compareToSavedScan then
    scan.getpointertoaddress entry.address scan.valuetype
  else
    entry.oldvalue

def accepts (entry : Entry) (value : List UInt8) : Bool :=
  xor (scan.checkroutine entry.address value (scan.oldvalue entry))
    scan.inverseScan

def result (entry : Entry) (value : List UInt8) :
    Option (ℕ × List UInt8) :=
  if scan.accepts entry value then
    some (entry.address, value)
  else
    none

def scanBatch (memory : ProcessMemory) :
    List Entry → Option (List (ℕ × List UInt8))
  | [] => some []
  | first :: others =>
    let size := request Entry.address scan.variablesize first others
    match readprocessmemory memory first.address size with
    | none => some []
    | some newmemory =>
      if size ≤ 4096 then
        some ((first :: others).filterMap fun entry =>
          scan.result entry ((newmemory.drop
            (entry.address - first.address)).take scan.variablesize))
      else
        none

def nextnextscanmem (memory : ProcessMemory) (entries : List Entry) :
    Option (List (ℕ × List UInt8)) :=
  overBatches (scan.scanBatch memory)
    (batches Entry.address scan.variablesize entries.length entries)

def filtered (memory : ProcessMemory) (entries : List Entry) :
    List (ℕ × List UInt8) :=
  entries.filterMap fun entry =>
    (readprocessmemory memory entry.address scan.variablesize).bind
      (scan.result entry)

/-- The buffer is large enough for every read, and what is reported are the
addresses that a scan of each address alone would report. -/
def ScansExactly (memory : ProcessMemory) (entries : List Entry) : Prop :=
  scan.nextnextscanmem memory entries = some (scan.filtered memory entries)

variable (memory : ProcessMemory)

theorem filtered_flatten (groups : List (List Entry)) :
    groups.flatMap (scan.filtered memory) =
      scan.filtered memory groups.flatten := by
  unfold filtered
  rw [filterMap_flatten, flatMap_def]

theorem scanBatch_eq {first : Entry} {others : List Entry}
    (hpage : OnePage Entry.address scan.variablesize first others)
    (hfits : scan.variablesize ≤ 4096 ∨
      readprocessmemory memory first.address scan.variablesize = none) :
    scan.scanBatch memory (first :: others) =
      some (scan.filtered memory (first :: others)) := by
  have hread : ∀ entry ∈ first :: others, _ := fun entry hentry =>
    hpage.read_eq scan.variablesize_pos memory hentry
  rw [scanBatch, filtered]
  cases hbatch : readprocessmemory memory first.address
      (request Entry.address scan.variablesize first others) with
  | none =>
    have hnone : (first :: others).filterMap (fun entry =>
        (readprocessmemory memory entry.address scan.variablesize).bind
          (scan.result entry)) = [] := by
      rw [filterMap_eq_nil_iff]
      intro entry hentry
      rw [hread entry hentry, hbatch]
      rfl
    rw [hnone]
  | some newmemory =>
    have hsize : scan.variablesize ≤ 4096 := by
      rcases hfits with hsize | hnone
      · exact hsize
      · have hfirst := hread first (mem_cons_self ..)
        rw [hnone, hbatch] at hfirst
        cases hfirst
    have hroom := hpage.request_le hsize
    simp only [if_pos hroom, Option.some.injEq]
    apply filterMap_congr
    intro entry hentry
    rw [hread entry hentry, hbatch]
    rfl

theorem scanBatch_long {entry : Entry} (hlong : 4096 < scan.variablesize)
    (hread : readprocessmemory memory entry.address scan.variablesize ≠ none) :
    scan.scanBatch memory [entry] = none := by
  obtain ⟨newmemory, hnew⟩ := Option.ne_none_iff_exists'.mp hread
  rw [scanBatch, request_nil, hnew]
  exact if_neg (by omega)

theorem nextnextscanmem_long {entries : List Entry}
    (hentries : Ascending Entry.address scan.variablesize entries)
    (hlong : 4096 < scan.variablesize) {entry : Entry}
    (hentry : entry ∈ entries)
    (hread : readprocessmemory memory entry.address scan.variablesize ≠ none) :
    scan.nextnextscanmem memory entries = none :=
  overBatches_long hentries hlong hentry
    (scan.scanBatch_long memory hlong hread)

theorem nextnextscanmem_fits {entries : List Entry}
    (hentries : Ascending Entry.address scan.variablesize entries)
    (hfits : scan.variablesize ≤ 4096 ∨ ∀ entry ∈ entries,
      readprocessmemory memory entry.address scan.variablesize = none) :
    scan.nextnextscanmem memory entries =
      some (scan.filtered memory entries) := by
  have hflatten := @flatten_batches _ Entry.address
    scan.variablesize entries.length entries le_rfl
  have hgroups : ∀ batch ∈ batches Entry.address scan.variablesize
      entries.length entries,
      scan.scanBatch memory batch = some (scan.filtered memory batch) := by
    intro batch hbatch
    obtain ⟨first, others, rfl, hpage⟩ := onePage_of_mem_batches hentries
      hbatch
    apply scan.scanBatch_eq memory hpage
    apply hfits.imp_right
    intro hnone
    apply hnone
    rw [← hflatten]
    exact mem_flatten.mpr ⟨_, hbatch, mem_cons_self ..⟩
  rw [nextnextscanmem, overBatches_eq hgroups, scan.filtered_flatten memory,
    hflatten]

def unchanged (variableType : VariableType) (variablesize : ℕ)
    (hpos : 0 < variablesize) : NextScan :=
  { variableType
    variablesize
    variablesize_pos := hpos
    compareToSavedScan := false
    inverseScan := false
    checkroutine := fun _ newvalue oldvalue => newvalue == oldvalue
    getpointertoaddress := fun _ _ => [] }

def dwords : List Entry :=
  [⟨0x1000, [0, 0, 0, 0]⟩, ⟨0x1004, [0, 0, 0, 1]⟩, ⟨0x1ffe, [0, 0, 0, 0]⟩]

end NextScan

end MemScanBatches
end CheatEngine
