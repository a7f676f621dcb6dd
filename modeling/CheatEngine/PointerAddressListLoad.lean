import CheatEngine.ByteMemory
import CheatEngine.PointerAddressList
import CheatEngine.PointerValueListRoundTrip

/-!
# Loading a pointer map for a rescan

`TPointerListHandler` turns the exported reverse map around: 64 KB blocks give
the value of every address.  What `getPointer` finds after the loading is
followed through the stores of the loader, one address at a time.
-/

namespace CheatEngine.PointerAddressList

open List ByteMemory ByteStream PointerValueList

/-- The blocks by their bases; an offset past the end of a block is an address
behind it. -/
abbrev PointerMap := UInt64 → Option (ℕ → UInt8)

structure PointerListHandler where
  pmap : PointerMap
  modulelist : List Module
  is32bit : Bool

def pointerSize (is32bit : Bool) : ℕ :=
  if is32bit then 4 else 8

/-- `limit`, which the offset of a stored pointer stays below. -/
def blockLimit (is32bit : Bool) : ℕ :=
  65536 - pointerSize is32bit

def blockBase (address : UInt64) : UInt64 :=
  address &&& ~~~0xffff

def blockOffset (address : UInt64) : ℕ :=
  (address - blockBase address).toNat

def readPointer (is32bit : Bool) (pmap : PointerMap) (address : UInt64) :
    UInt64 :=
  match pmap (blockBase address) with
  | some pbase => UInt64.ofNat
      (leValue (load pbase (blockOffset address) (pointerSize is32bit)))
  | none => 0

def PointerListHandler.getPointer (handler : PointerListHandler)
    (address : UInt64) : UInt64 :=
  readPointer handler.is32bit handler.pmap address

section

variable (fresh : UInt64 → ℕ → UInt8) (is32bit : Bool)

/-- A block is allocated for the address if there is none, and the value is
stored in it; `fresh` is what an allocated block holds. -/
def storePointer (value address : UInt64) (pmap : PointerMap) : PointerMap :=
  let base := blockBase address
  let pbase := (pmap base).getD (fresh base)
  Function.update pmap base <| some <|
    if blockOffset address < blockLimit is32bit then
      store pbase (blockOffset address)
        (leBytes (pointerSize is32bit) value.toNat)
    else
      pbase

def loadAddress (value : UInt64) (pmap : PointerMap) : Reader PointerMap := do
  let address ← readQWord
  let present ← readByte
  let _ ← if present = 1 then readQWord else pure 0
  return storePointer fresh is32bit value address pmap

def loadAddresses (value : UInt64) : ℕ → PointerMap → Reader PointerMap
  | 0, pmap => return pmap
  | count + 1, pmap => do
      let loaded ← loadAddress fresh is32bit value pmap
      loadAddresses value count loaded

/-- `while count<totalcount`; every turn reads or raises, so the unread bytes
bound the number of turns. -/
def loadValues (totalcount : UInt64) :
    ℕ → UInt64 → PointerMap → Reader PointerMap
  | 0, count, pmap =>
    if count < totalcount then throw "Stream read error" else return pmap
  | turns + 1, count, pmap =>
    if count < totalcount then do
      let value ← readQWord
      let nrofpointers ← readDWord
      let loaded ← loadAddresses fresh is32bit value
        nrofpointers.toInt32.toNatClampNeg pmap
      loadValues totalcount turns
        (count + nrofpointers.toInt32.toInt64.toUInt64) loaded
    else
      return pmap

def createFromStream (stream : List UInt8) :
    Except String PointerListHandler := do
  let (header, unread) ← loadHeader stream
  let is32bit := header.maxlevel == 7
  let (pmap, _) ← loadValues fresh is32bit (UInt64.ofNat header.totalcount)
    unread.length 0 (fun _ => none) unread
  return { pmap, modulelist := header.modulelist, is32bit }

end

theorem blockBase_toNat (address : UInt64) :
    (blockBase address).toNat = address.toNat / 65536 * 65536 := by
  have hmask : (~~~(0xffff : UInt64)).toNat = 2 ^ 64 - (2 ^ 16 - 1 + 1) := by
    decide
  have hpow : (65536 : ℕ) = 2 ^ 16 := rfl
  rw [blockBase, UInt64.toNat_and, hmask, hpow]
  apply Nat.eq_of_testBit_eq
  intro i
  rw [Nat.testBit_and, Nat.testBit_two_pow_sub_succ (by decide),
    Nat.testBit_two_pow_sub_one, Nat.testBit_mul_two_pow,
    Nat.testBit_div_two_pow]
  by_cases hlow : i < 16
  · simp [hlow, Nat.not_le.mpr hlow]
  · by_cases hhigh : i < 64
    · have hsub : i - 16 + 16 = i := by omega
      simp [hlow, hhigh, Nat.le_of_not_lt hlow, hsub]
    · have hbound : address.toNat < 2 ^ i :=
        lt_of_lt_of_le address.toNat_lt
          (Nat.pow_le_pow_right (by decide) (Nat.le_of_not_lt hhigh))
      have hsub : i - 16 + 16 = i := by omega
      simp [hhigh, hsub, Nat.testBit_lt_two_pow hbound]

theorem blockOffset_eq (address : UInt64) :
    blockOffset address = address.toNat % 65536 := by
  have hle : blockBase address ≤ address := by
    rw [UInt64.le_iff_toNat_le, blockBase_toNat]
    exact Nat.div_mul_le_self _ _
  rw [blockOffset, UInt64.toNat_sub_of_le _ _ hle, blockBase_toNat]
  omega

variable {address : UInt64}

theorem blockOffset_add_pointerSize_le {is32bit : Bool}
    (hslot : blockOffset address < blockLimit is32bit) :
    blockOffset address + pointerSize is32bit ≤ 65536 := by
  unfold blockLimit at hslot
  omega

section

variable {fresh : UInt64 → ℕ → UInt8} {is32bit : Bool}

theorem readPointer_storePointer_self {address : UInt64}
    (hslot : blockOffset address < blockLimit is32bit) (value : UInt64)
    (pmap : PointerMap) :
    readPointer is32bit (storePointer fresh is32bit value address pmap)
        address =
      UInt64.ofNat (value.toNat % 256 ^ pointerSize is32bit) := by
  have hsize : pointerSize is32bit ≤
      (leBytes (pointerSize is32bit) value.toNat).length := by
    rw [leBytes_length]
  simp only [readPointer, storePointer, Function.update_self, if_pos hslot]
  rw [load_store_take _ _ hsize, take_of_length_le
    (leBytes_length _ _).le, leValue_leBytes]

theorem leValue_eq_zero {block : List UInt8}
    (hzeros : ∀ byte ∈ block, byte = 0) : leValue block = 0 := by
  induction block with
  | nil => rfl
  | cons byte rest ih =>
    have hrest := ih fun other hother =>
      hzeros other (mem_cons_of_mem _ hother)
    rw [leValue, foldr_cons, ← leValue, hrest, hzeros byte (by simp)]
    rfl

theorem leValue_load_fresh
    (hzero : ∀ base, ∀ offset < 65536, fresh base offset = 0) (base : UInt64)
    {offset size : ℕ} (hend : offset + size ≤ 65536) :
    leValue (load (fresh base) offset size) = 0 := by
  apply leValue_eq_zero
  intro byte hbyte
  obtain ⟨index, hindex, rfl⟩ := mem_map.mp hbyte
  rw [mem_range] at hindex
  exact hzero base _ (by omega)

theorem readPointer_storePointer_of_apart
    (hzero : ∀ base, ∀ offset < 65536, fresh base offset = 0)
    {address other : UInt64}
    (hslot : blockOffset address < blockLimit is32bit)
    (hapart : other.toNat + pointerSize is32bit ≤ address.toNat ∨
      address.toNat + pointerSize is32bit ≤ other.toNat)
    (value : UInt64) (pmap : PointerMap) :
    readPointer is32bit (storePointer fresh is32bit value other pmap) address =
      readPointer is32bit pmap address := by
  by_cases hbase : blockBase address = blockBase other
  · have hoffsets : ∀ index < pointerSize is32bit,
        ¬ Covers (blockOffset other)
          (leBytes (pointerSize is32bit) value.toNat)
          (blockOffset address + index) := by
      intro index hindex hcovers
      have hbases := congrArg UInt64.toNat hbase
      rw [blockBase_toNat, blockBase_toNat] at hbases
      rw [Covers, leBytes_length, blockOffset_eq, blockOffset_eq] at hcovers
      omega
    have hload : ∀ pbase : ℕ → UInt8,
        load (if blockOffset other < blockLimit is32bit then
            store pbase (blockOffset other)
              (leBytes (pointerSize is32bit) value.toNat)
          else pbase) (blockOffset address) (pointerSize is32bit) =
          load pbase (blockOffset address) (pointerSize is32bit) := by
      intro pbase
      split
      · exact load_congr fun index hindex =>
          store_of_not_covers _ (hoffsets index hindex)
      · rfl
    simp only [readPointer, storePointer, hbase, Function.update_self, hload]
    cases pmap (blockBase other) with
    | some pbase => rfl
    | none =>
      rw [Option.getD_none, leValue_load_fresh hzero _
        (blockOffset_add_pointerSize_le hslot)]
      rfl
  · simp only [readPointer, storePointer, Function.update_of_ne hbase]

end

/-- The values and addresses of an exported map, in the order of its
stream. -/
def storedPointers (handler : Handler) : List (UInt64 × UInt64) :=
  handler.filledLists.flatMap fun entry =>
    entry.list.map fun data => (entry.pointervalue, data.address)

def storeAll (fresh : UInt64 → ℕ → UInt8) (is32bit : Bool)
    (pointers : List (UInt64 × UInt64)) (pmap : PointerMap) : PointerMap :=
  pointers.foldl (fun stored pointer =>
    storePointer fresh is32bit pointer.1 pointer.2 stored) pmap

theorem readPointer_storeAll {fresh : UInt64 → ℕ → UInt8} {is32bit : Bool}
    (hzero : ∀ base, ∀ offset < 65536, fresh base offset = 0)
    (hslot : blockOffset address < blockLimit is32bit)
    {pointers : List (UInt64 × UInt64)}
    (hapart : ∀ pointer ∈ pointers, pointer.2 ≠ address →
      pointer.2.toNat + pointerSize is32bit ≤ address.toNat ∨
        address.toNat + pointerSize is32bit ≤ pointer.2.toNat)
    (pmap : PointerMap) :
    readPointer is32bit (storeAll fresh is32bit pointers pmap) address =
      pointers.foldl (fun found pointer =>
        if pointer.2 = address then
          UInt64.ofNat (pointer.1.toNat % 256 ^ pointerSize is32bit)
        else found) (readPointer is32bit pmap address) := by
  induction pointers generalizing pmap with
  | nil => rfl
  | cons pointer rest ih =>
    have hfirst : readPointer is32bit
        (storePointer fresh is32bit pointer.1 pointer.2 pmap) address =
          if pointer.2 = address then
            UInt64.ofNat (pointer.1.toNat % 256 ^ pointerSize is32bit)
          else readPointer is32bit pmap address := by
      split
      · rename_i hself
        rw [hself]
        exact readPointer_storePointer_self hslot pointer.1 pmap
      · rename_i hother
        exact readPointer_storePointer_of_apart hzero hslot
          (hapart pointer (by simp) hother) pointer.1 pmap
    have hrest := ih (fun other hother =>
      hapart other (mem_cons_of_mem _ hother))
        (storePointer fresh is32bit pointer.1 pointer.2 pmap)
    rw [hfirst] at hrest
    exact hrest

/-! ## Reading the exported stream -/

section

variable {fresh : UInt64 → ℕ → UInt8} {is32bit : Bool}

theorem reads_readQWord_of_length {block : List UInt8}
    (hlength : block.length = 8) :
    Reads readQWord block (UInt64.ofNat (leValue block)) := by
  have hread := (reads_readBuffer block).bind_pure
    (f := fun read => UInt64.ofNat (leValue read))
  rw [hlength] at hread
  exact hread

theorem reads_loadAddress (value : UInt64) (entry : PointerData)
    (pmap : PointerMap) :
    Reads (loadAddress fresh is32bit value pmap) (writePointerData entry)
      (storePointer fresh is32bit value entry.address pmap) := by
  unfold writePointerData
  apply (reads_readQWord entry.address).bind
  cases entry.staticdata with
  | none =>
    rw [← append_nil (writeByte 0)]
    exact (reads_readByte 0).bind
      ((reads_pure (0 : UInt64)).bind_pure (f := fun _ =>
        storePointer fresh is32bit value entry.address pmap))
  | some staticdata =>
    apply (reads_readByte 1).bind
    exact (reads_readQWord_of_length (by simp)).bind_pure (f := fun _ =>
      storePointer fresh is32bit value entry.address pmap)

theorem reads_loadAddresses (value : UInt64) (list : List PointerData)
    (pmap : PointerMap) :
    Reads (loadAddresses fresh is32bit value list.length pmap)
      (list.flatMap writePointerData)
      (storeAll fresh is32bit (list.map fun data => (value, data.address))
        pmap) := by
  induction list generalizing pmap with
  | nil => exact reads_pure pmap
  | cons entry rest ih =>
    rw [flatMap_cons]
    exact (reads_loadAddress value entry pmap).bind (ih _)

theorem ofNat_toInt32_toUInt64 {n : ℕ} (hlt : n < 2 ^ 31) :
    (UInt32.ofNat n).toInt32.toInt64.toUInt64 = UInt64.ofNat n := by
  have hmax : (n : ℤ) ≤ Int32.maxValue.toInt := by
    rw [Int32.toInt_maxValue]
    omega
  rw [UInt32.toInt32_ofNat', Int32.toInt64_ofNat' hmax,
    ← UInt64.toInt64_ofNat', UInt64.toUInt64_toInt64]

theorem ofNat_lt_ofNat_iff {count totalcount : ℕ}
    (hle : count ≤ totalcount) (hsmall : totalcount < 2 ^ 64) :
    UInt64.ofNat count < UInt64.ofNat totalcount ↔ count < totalcount := by
  rw [UInt64.lt_iff_toNat_lt, UInt64.toNat_ofNat', UInt64.toNat_ofNat',
    Nat.mod_eq_of_lt hsmall, Nat.mod_eq_of_lt (by omega)]

theorem loadValues_ok {entries : List PointerList}
    (hfilled : ∀ entry ∈ entries, entry.list ≠ [])
    (hlength : ∀ entry ∈ entries, entry.list.length < 2 ^ 31)
    {turns count totalcount : ℕ} (hturns : entries.length ≤ turns)
    (htotal : count + (entries.map fun entry => entry.list.length).sum =
      totalcount) (hsmall : totalcount < 2 ^ 64) (pmap : PointerMap) :
    loadValues fresh is32bit (UInt64.ofNat totalcount) turns
        (UInt64.ofNat count) pmap (entries.flatMap writePointerList) =
      .ok (storeAll fresh is32bit (entries.flatMap fun entry =>
        entry.list.map fun data => (entry.pointervalue, data.address)) pmap,
          []) := by
  induction entries generalizing turns count pmap with
  | nil =>
    have hdone : count = totalcount := by simpa using htotal
    have hstop := (ofNat_lt_ofNat_iff hdone.le hsmall).not.mpr hdone.not_lt
    cases turns with
    | zero =>
      rw [loadValues, if_neg hstop]
      rfl
    | succ turns =>
      rw [loadValues, if_neg hstop]
      rfl
  | cons entry rest ih =>
    cases turns with
    | zero => simp at hturns
    | succ turns =>
      have hpositive : 0 < entry.list.length :=
        length_pos_of_ne_nil (hfilled entry (by simp))
      have hentry := hlength entry (by simp)
      rw [map_cons, sum_cons] at htotal
      have hmore := (ofNat_lt_ofNat_iff (by omega) hsmall).mpr
        (by omega : count < totalcount)
      have hrest := ih
        (fun other hother => hfilled other (mem_cons_of_mem _ hother))
        (fun other hother => hlength other (mem_cons_of_mem _ hother))
        (Nat.le_of_succ_le_succ hturns)
        (by omega : count + entry.list.length + _ = totalcount)
        (storeAll fresh is32bit (entry.list.map fun data =>
          (entry.pointervalue, data.address)) pmap)
      have hlist : Reads (loadAddresses fresh is32bit entry.pointervalue
          (UInt32.ofNat entry.list.length).toInt32.toNatClampNeg pmap) _ _ :=
        (toNatClampNeg_ofNat_of_lt hentry).symm ▸
          reads_loadAddresses entry.pointervalue entry.list pmap
      have hstored : storeAll fresh is32bit
          ((entry :: rest).flatMap fun entry => entry.list.map fun data =>
            (entry.pointervalue, data.address)) pmap =
          storeAll fresh is32bit (rest.flatMap fun entry =>
            entry.list.map fun data => (entry.pointervalue, data.address))
            (storeAll fresh is32bit (entry.list.map fun data =>
              (entry.pointervalue, data.address)) pmap) := by
        rw [storeAll, flatMap_cons, foldl_append]
        rfl
      have hwritten : (entry :: rest).flatMap writePointerList =
          writeQWord entry.pointervalue ++
            (writeDWord (UInt32.ofNat entry.list.length) ++
              (entry.list.flatMap writePointerData ++
                rest.flatMap writePointerList)) := by
        simp [writePointerList]
      rw [loadValues, if_pos hmore, hstored, hwritten,
        (reads_readQWord _).bind_run, (reads_readDWord _).bind_run,
        hlist.bind_run, ofNat_toInt32_toUInt64 hentry, ← UInt64.ofNat_add]
      exact hrest

end

theorem createFromStream_ok (fresh : UInt64 → ℕ → UInt8) (held : HeldHandler) :
    createFromStream fresh (exportToStream held.toHandler) =
      .ok { pmap := storeAll fresh (held.maxlevel == 7)
              (storedPointers held.toHandler) fun _ => none
            modulelist := held.modulelist.map decodedModule
            is32bit := held.maxlevel == 7 } := by
  have hheader := reads_loadHeader held
    (held.toHandler.filledLists.flatMap writePointerList)
  have hvalues : loadValues fresh (held.maxlevel == 7)
      (UInt64.ofNat held.count) _ (UInt64.ofNat 0) _ _ = _ := loadValues_ok
    (fun entry hentry => ((held.mem_filledLists_iff entry).mp hentry).2)
    (fun entry hentry => held.list_lt entry
      ((held.mem_filledLists_iff entry).mp hentry).1)
    (length_le_flatMap_writePointerList held.toHandler.filledLists)
    ((Nat.zero_add _).trans held.sum_filledLists) held.count_lt fun _ => none
  simp only [append_assoc] at hheader
  rw [createFromStream, exportToStream, hheader]
  change (loadValues fresh (held.maxlevel == 7) (UInt64.ofNat held.count)
    _ (UInt64.ofNat 0) _ _ >>= _) = _
  rw [hvalues]
  rfl

/-- A map of one moment: no address holds two values. -/
structure Snapshot extends HeldHandler where
  one_value : ∀ first ∈ storedPointers toHandler,
    ∀ second ∈ storedPointers toHandler,
      first.2 = second.2 → first.1 = second.1

def Apart (handler : Handler) (address : UInt64) : Prop :=
  ∀ pointer ∈ storedPointers handler, pointer.2 ≠ address →
    pointer.2.toNat + pointerSize (handler.maxlevel == 7) ≤ address.toNat ∨
      address.toNat + pointerSize (handler.maxlevel == 7) ≤ pointer.2.toNat

theorem value_fits (held : HeldHandler) {value : UInt64}
    (hstored : (value, address) ∈ storedPointers held.toHandler) :
    UInt64.ofNat (value.toNat % 256 ^ pointerSize (held.maxlevel == 7)) =
      value := by
  obtain ⟨entry, hentry, hdata⟩ := mem_flatMap.mp hstored
  obtain ⟨data, -, hpair⟩ := mem_map.mp hdata
  cases hpair
  have hlt := ((held.placed.mem_toList_iff entry).mp
    ((held.mem_filledLists_iff entry).mp hentry).1).1
  have hpower : 256 ^ pointerSize (held.maxlevel == 7) =
      16 ^ (held.maxlevel + 1) := by
    rcases held.maxlevel_eq with hlevel | hlevel
    · rw [hlevel]
      rfl
    · rw [hlevel]
      rfl
  rw [hpower, Nat.mod_eq_of_lt hlt, UInt64.ofNat_toNat]

theorem foldl_ite_of_forall {α β : Type*} {p : α → Prop} [DecidablePred p]
    {f : α → β} {result : β} {entries : List α}
    (hsame : ∀ entry ∈ entries, p entry → f entry = result) {found : β}
    (hfound : found = result ∨ ∃ entry ∈ entries, p entry) :
    entries.foldl (fun last entry => if p entry then f entry else last)
      found = result := by
  induction entries generalizing found with
  | nil => simpa using hfound
  | cons entry rest ih =>
    apply ih fun other hother => hsame other (mem_cons_of_mem _ hother)
    by_cases hentry : p entry
    · left
      simp only [hentry, if_true]
      exact hsame entry (by simp) hentry
    · simpa [hentry] using hfound

theorem storedPointers_stackHandler :
    storedPointers stackHandler = [(0x10, 0x20)] := by
  rw [storedPointers, Handler.filledLists]
  change ((RadixTree.toList 7 stackHandler.level0list).filter _).flatMap _ = _
  rw [toList_stackHandler]
  rfl

def stackSnapshot : Snapshot where
  toHeldHandler := heldStackHandler
  one_value := by
    change ∀ first ∈ storedPointers stackHandler,
      ∀ second ∈ storedPointers stackHandler, _
    rw [storedPointers_stackHandler]
    simp

end CheatEngine.PointerAddressList
