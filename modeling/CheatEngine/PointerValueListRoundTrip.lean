import CheatEngine.PointerValueList
import Mathlib.Data.List.TakeWhile

/-!
# Export and import of the reverse pointer map

The handler that is read back agrees with the exported one on its header, its
modules and the addresses of every value exactly when nothing in it is cut by
the widths of the format.
-/

namespace CheatEngine
namespace PointerValueList

open List ByteStream RadixTree

structure HeldHandler extends Handler where
  maxlevel_eq : maxlevel = 7 ∨ maxlevel = 15
  placed : Placed level0list
  count_eq : count =
    ((toList maxlevel level0list).map fun entry => entry.list.length).sum
  count_lt : count < 2 ^ 64
  list_lt : ∀ entry ∈ toList maxlevel level0list, entry.list.length < 2 ^ 31
  modulelist_lt : modulelist.length < 2 ^ 31
  name_lt : ∀ entry ∈ modulelist, entry.name.length < 2 ^ 31

/-- The same header data, the same modules, and the same addresses with the
same static data for every pointer value. -/
structure SameMap (first second : Handler) : Prop where
  maxlevel : first.maxlevel = second.maxlevel
  modulelist : first.modulelist = second.modulelist
  specific : first.specificBaseAsStaticOnly = second.specificBaseAsStaticOnly
  bounds : first.specificBaseAsStaticOnly = true →
    first.basestart = second.basestart ∧ first.basestop = second.basestop
  addresses : ∀ pointervalue,
    first.addresses pointervalue = second.addresses pointervalue

def decodedStaticData (staticdata : StaticData) : StaticData :=
  { staticdata with
    offset := staticdata.offset.toUInt64.toUInt32.toUInt64.toInt64 }

def decodedPointerData (entry : PointerData) : PointerData :=
  { entry with staticdata := entry.staticdata.map decodedStaticData }

def decodedPointerList (entry : PointerList) : PointerList :=
  { newPointerList entry.pointervalue with
    list := entry.list.map decodedPointerData }

def decodedModule (entry : Module) : Module :=
  { entry with name := entry.name.takeWhile (· ≠ 0) }

/-! ## Reading back the parts of the stream -/

theorem toNat_ofNat_of_lt {n : ℕ} (hlt : n < 2 ^ 31) :
    (UInt32.ofNat n).toNat = n := by
  rw [UInt32.toNat_ofNat', Nat.mod_eq_of_lt (by omega)]

theorem toNatClampNeg_ofNat_of_lt {n : ℕ} (hlt : n < 2 ^ 31) :
    (UInt32.ofNat n).toInt32.toNatClampNeg = n := by
  rw [UInt32.toInt32_ofNat']
  exact Int32.toNatClampNeg_ofNat_of_lt hlt

theorem reads_readModule {entry : Module} (hname : entry.name.length < 2 ^ 31) :
    Reads readModule (writeModule entry) (decodedModule entry) := by
  have hbuffer : Reads (readBuffer (UInt32.ofNat entry.name.length).toNat)
      entry.name entry.name := by
    rw [toNat_ofNat_of_lt hname]
    exact reads_readBuffer entry.name
  exact (reads_readDWord _).bind (hbuffer.bind
    (reads_readQWord entry.base).bind_pure)

theorem reads_loadModuleList {modulelist : List Module}
    (hlength : modulelist.length < 2 ^ 31)
    (hname : ∀ entry ∈ modulelist, entry.name.length < 2 ^ 31) :
    Reads loadModuleList (saveModuleListToResults modulelist)
      (modulelist.map decodedModule) := by
  apply (reads_readDWord _).bind
  rw [toNatClampNeg_ofNat_of_lt hlength]
  exact reads_readMany_map modulelist fun entry hentry =>
    reads_readModule (hname entry hentry)

theorem reads_expectByte (expected : UInt8) (message : String) :
    Reads (expectByte expected message) (writeByte expected) () := by
  have hread : Reads (expectByte expected message)
      (writeByte expected ++ []) () := by
    apply (reads_readByte expected).bind
    simp only [ne_eq, not_true_eq_false, if_false]
    exact reads_pure ()
  simpa using hread

def decodedBounds (handler : Handler) : UInt64 × UInt64 :=
  if handler.specificBaseAsStaticOnly then
    (handler.basestart, handler.basestop)
  else
    (0, 0)

def decodedHeader (handler : Handler) : Header where
  modulelist := handler.modulelist.map decodedModule
  specificBaseAsStaticOnly := handler.specificBaseAsStaticOnly
  bounds := decodedBounds handler
  maxlevel := handler.maxlevel
  totalcount := handler.count

theorem reads_loadHeader (held : HeldHandler) :
    Reads loadHeader
      (writeByte 0xce ++ (writeByte 1 ++
        (saveModuleListToResults held.modulelist ++
          (writeSpecificBase held.toHandler ++
            (writeDWord (UInt32.ofNat held.maxlevel) ++
              writeQWord (UInt64.ofNat held.count))))))
      (decodedHeader held.toHandler) := by
  have hmaxlevel : (UInt32.ofNat held.maxlevel).toNat = held.maxlevel := by
    apply toNat_ofNat_of_lt
    rcases held.maxlevel_eq with hlevel | hlevel <;> omega
  have hcount : (UInt64.ofNat held.count).toNat = held.count := by
    rw [UInt64.toNat_ofNat', Nat.mod_eq_of_lt held.count_lt]
  have hmodules := reads_loadModuleList held.modulelist_lt held.name_lt
  have hlast : Reads (do
      let maxlevel ← readDWord
      let totalcount ← readQWord
      return ({ modulelist := held.modulelist.map decodedModule
                specificBaseAsStaticOnly := held.specificBaseAsStaticOnly
                bounds := decodedBounds held.toHandler
                maxlevel := maxlevel.toNat
                totalcount := totalcount.toNat } : Header))
      (writeDWord (UInt32.ofNat held.maxlevel) ++
        writeQWord (UInt64.ofNat held.count))
      (decodedHeader held.toHandler) := by
    have hheader : ({ modulelist := held.modulelist.map decodedModule
                      specificBaseAsStaticOnly := held.specificBaseAsStaticOnly
                      bounds := decodedBounds held.toHandler
                      maxlevel := (UInt32.ofNat held.maxlevel).toNat
                      totalcount := (UInt64.ofNat held.count).toNat } : Header) =
        decodedHeader held.toHandler := by
      rw [hmaxlevel, hcount]
      rfl
    rw [← hheader]
    exact (reads_readDWord _).bind (reads_readQWord _).bind_pure
  apply (reads_expectByte 0xce _).bind
  apply (reads_expectByte 1 _).bind
  apply hmodules.bind
  unfold writeSpecificBase
  cases hspecific : held.specificBaseAsStaticOnly with
  | false =>
    simp only [decodedBounds, hspecific] at hlast ⊢
    exact (reads_readByte 0).bind ((reads_pure (0, 0)).bind hlast)
  | true =>
    simp only [decodedBounds, hspecific, if_true] at hlast ⊢
    rw [append_assoc]
    apply (reads_readByte 1).bind
    exact ((reads_readQWord held.basestart).bind
      (reads_readQWord held.basestop).bind_pure).bind hlast

theorem reads_readPointerData (entry : PointerData) :
    Reads readPointerData (writePointerData entry)
      (decodedPointerData entry) := by
  unfold writePointerData decodedPointerData
  apply (reads_readQWord entry.address).bind
  cases entry.staticdata with
  | none =>
    have habsent : Reads (readStaticData 0) [] none := reads_pure none
    rw [← append_nil (writeByte 0)]
    exact (reads_readByte 0).bind habsent.bind_pure
  | some staticdata =>
    apply (reads_readByte 1).bind
    exact ((reads_readDWord staticdata.moduleindex).bind
      (reads_readDWord _).bind_pure).bind_pure

variable {entry : PointerList} {maxlevel : ℕ} {entries : List PointerList}
  {pointervalue : UInt64}

theorem reads_readPointerList (hlength : entry.list.length < 2 ^ 31) :
    Reads readPointerList (writePointerList entry)
      (decodedPointerList entry) := by
  apply (reads_readQWord entry.pointervalue).bind
  apply (reads_readDWord _).bind
  rw [toNatClampNeg_ofNat_of_lt hlength]
  have hlist : Reads (readMany readPointerData entry.list.length)
      (entry.list.flatMap writePointerData)
      (entry.list.map decodedPointerData) :=
    reads_readMany_map entry.list fun data _ => reads_readPointerData data
  exact hlist.bind_pure

/-- The list of an entry replaces whatever the tree has at its value. -/
def insertList {maxlevel : ℕ} (table : Table PointerList maxlevel)
    (entry : PointerList) : Table PointerList maxlevel :=
  findoraddpointervalue entry.pointervalue
    (fun found => { found with list := entry.list }) table

theorem writePointerList_ne_nil (entry : PointerList) :
    writePointerList entry ≠ [] := by
  intro hnil
  have hlength := congrArg List.length hnil
  simp [writePointerList] at hlength

theorem length_le_flatMap_writePointerList (entries : List PointerList) :
    entries.length ≤ (entries.flatMap writePointerList).length := by
  induction entries with
  | nil => simp
  | cons entry rest ih =>
    have hpositive : 0 < (writePointerList entry).length :=
      length_pos_of_ne_nil (writePointerList_ne_nil entry)
    simp only [flatMap_cons, length_append, length_cons]
    omega

theorem loadPointerLists_ok (hfilled : ∀ entry ∈ entries, entry.list ≠ [])
    (hlength : ∀ entry ∈ entries, entry.list.length < 2 ^ 31)
    {turns count totalcount : ℕ} (hturns : entries.length ≤ turns)
    (htotal : count + (entries.map fun entry => entry.list.length).sum =
      totalcount) (table : Table PointerList maxlevel) :
    loadPointerLists totalcount turns count table
        (entries.flatMap writePointerList) =
      .ok ((totalcount, (entries.map decodedPointerList).foldl insertList
        table), []) := by
  induction entries generalizing turns count table with
  | nil =>
    have hdone : count = totalcount := by simpa using htotal
    subst count
    cases turns with
    | zero =>
      rw [loadPointerLists, if_neg (Nat.lt_irrefl _)]
      rfl
    | succ turns =>
      rw [loadPointerLists, if_neg (Nat.lt_irrefl _)]
      rfl
  | cons entry rest ih =>
    cases turns with
    | zero => simp at hturns
    | succ turns =>
      have hpositive : 0 < entry.list.length :=
        length_pos_of_ne_nil (hfilled entry (by simp))
      have hmore : count < totalcount := by
        simp only [map_cons, sum_cons] at htotal
        omega
      have hhead := reads_readPointerList (hlength entry (by simp))
        (rest.flatMap writePointerList)
      have hnext : (decodedPointerList entry).list.length =
          entry.list.length := by
        simp [decodedPointerList]
      have hremaining : count + (decodedPointerList entry).list.length +
          (rest.map fun other => other.list.length).sum = totalcount := by
        simp only [map_cons, sum_cons] at htotal
        omega
      have hrest := ih
        (fun other hother => hfilled other (mem_cons_of_mem _ hother))
        (fun other hother => hlength other (mem_cons_of_mem _ hother))
        (Nat.le_of_succ_le_succ hturns) hremaining
        (insertList table (decodedPointerList entry))
      rw [loadPointerLists, if_pos hmore, flatMap_cons]
      change (readPointerList _ >>= _) = _
      rw [hhead]
      exact hrest

theorem addressesIn_insertList_self (table : Table PointerList maxlevel)
    (entry : PointerList)
    (hsame : SamePath maxlevel pointervalue entry.pointervalue) :
    addressesIn (insertList table entry) pointervalue = entry.list :=
  addressesIn_findoraddpointervalue_self _ hsame

theorem addressesIn_insertList_of_ne (table : Table PointerList maxlevel)
    (entry : PointerList)
    (hdiffers : ¬ SamePath maxlevel pointervalue entry.pointervalue) :
    addressesIn (insertList table entry) pointervalue =
      addressesIn table pointervalue := by
  rw [addressesIn, addressesIn, insertList,
    find_findoraddpointervalue_of_ne _ hdiffers]

theorem addressesIn_foldl_of_ne (hdiffers : ∀ entry ∈ entries,
      ¬ SamePath maxlevel pointervalue entry.pointervalue)
    (table : Table PointerList maxlevel) :
    addressesIn (entries.foldl insertList table) pointervalue =
      addressesIn table pointervalue := by
  induction entries generalizing table with
  | nil => rfl
  | cons entry rest ih =>
    rw [foldl_cons, ih fun other hother =>
      hdiffers other (mem_cons_of_mem _ hother)]
    exact addressesIn_insertList_of_ne table entry (hdiffers entry (by simp))

theorem addressesIn_foldl_of_mem
    (hdistinct : entries.Pairwise fun first second =>
      ¬ SamePath maxlevel first.pointervalue second.pointervalue)
    (hentry : entry ∈ entries)
    (hsame : SamePath maxlevel pointervalue entry.pointervalue)
    (table : Table PointerList maxlevel) :
    addressesIn (entries.foldl insertList table) pointervalue =
      entry.list := by
  induction entries generalizing table with
  | nil => simp at hentry
  | cons head rest ih =>
    obtain ⟨hhead, hrest⟩ := pairwise_cons.mp hdistinct
    rcases mem_cons.mp hentry with rfl | hmem
    · rw [foldl_cons, addressesIn_foldl_of_ne]
      · exact addressesIn_insertList_self table entry hsame
      · intro other hother hboth
        apply hhead other hother
        intro level hlevel
        exact (hsame level hlevel).symm.trans (hboth level hlevel)
    · exact ih hrest hmem (insertList table head)

/-! ## The handler that is read back -/

namespace HeldHandler

variable (held : HeldHandler)

theorem toList_sorted :
    (toList held.maxlevel held.level0list).Pairwise fun first second =>
      first.pointervalue.toNat < second.pointervalue.toNat := by
  rw [toList_eq_entries, pairwise_map]
  apply (entries_sorted held.maxlevel held.level0list).imp_of_mem
  intro first second hfirst hsecond hlt
  rw [held.placed.pointervalue_eq hfirst, held.placed.pointervalue_eq hsecond]
  exact hlt

theorem distinct_paths :
    held.toHandler.filledLists.Pairwise fun first second =>
      ¬ SamePath held.maxlevel first.pointervalue second.pointervalue := by
  apply List.Pairwise.filter
  apply held.toList_sorted.imp_of_mem
  intro first second hfirst hsecond hlt hsame
  have heq := (samePath_iff ((held.placed.mem_toList_iff first).mp hfirst).1
    ((held.placed.mem_toList_iff second).mp hsecond).1).mp hsame
  rw [heq] at hlt
  exact lt_irrefl _ hlt

theorem mem_filledLists_iff (entry : PointerList) :
    entry ∈ held.toHandler.filledLists ↔
      entry ∈ toList held.maxlevel held.level0list ∧ entry.list ≠ [] := by
  simp [Handler.filledLists, mem_filter]

theorem addresses_cases (pointervalue : UInt64) :
    (∃ entry ∈ held.toHandler.filledLists,
      SamePath held.maxlevel pointervalue entry.pointervalue ∧
        held.toHandler.addresses pointervalue = entry.list) ∨
    ((∀ entry ∈ held.toHandler.filledLists,
      ¬ SamePath held.maxlevel pointervalue entry.pointervalue) ∧
        held.toHandler.addresses pointervalue = []) := by
  have hpositive : 0 < 16 ^ (held.maxlevel + 1) := by positivity
  have hreduce : ∀ level ≤ held.maxlevel, digit level pointervalue.toNat =
      digit level (pointervalue.toNat % 16 ^ (held.maxlevel + 1)) := by
    apply (mod_eq_iff_digits held.maxlevel _ _).mp
    rw [Nat.mod_mod]
  have hfind := find_congr held.maxlevel held.level0list hreduce
  cases hleaf : find held.maxlevel held.level0list pointervalue.toNat with
  | none =>
    right
    constructor
    · intro entry hentry hsame
      have hmem := ((held.mem_filledLists_iff entry).mp hentry).1
      have hentryFind := ((held.placed.mem_toList_iff entry).mp hmem).2
      rw [← find_congr held.maxlevel held.level0list hsame, hleaf]
        at hentryFind
      cases hentryFind
    · simp [Handler.addresses, addressesIn, hleaf]
  | some entry =>
    have hkey : entry.pointervalue.toNat =
        pointervalue.toNat % 16 ^ (held.maxlevel + 1) :=
      held.placed _ (Nat.mod_lt _ hpositive) entry (hfind ▸ hleaf)
    have hsame : SamePath held.maxlevel pointervalue entry.pointervalue := by
      intro level hlevel
      rw [hkey]
      exact hreduce level hlevel
    have hmem : entry ∈ toList held.maxlevel held.level0list := by
      apply (held.placed.mem_toList_iff entry).mpr
      rw [hkey]
      exact ⟨Nat.mod_lt _ hpositive, hfind ▸ hleaf⟩
    have haddresses : held.toHandler.addresses pointervalue =
        entry.list := by
      simp [Handler.addresses, addressesIn, hleaf]
    by_cases hempty : entry.list = []
    · right
      constructor
      · intro other hother hboth
        obtain ⟨hotherMem, hfilled⟩ :=
          (held.mem_filledLists_iff other).mp hother
        have hotherFind := ((held.placed.mem_toList_iff other).mp hotherMem).2
        rw [← find_congr held.maxlevel held.level0list hboth, hleaf]
          at hotherFind
        cases hotherFind
        exact hfilled hempty
      · rw [haddresses, hempty]
    · left
      exact ⟨entry, (held.mem_filledLists_iff entry).mpr ⟨hmem, hempty⟩,
        hsame, haddresses⟩

def rebuilt : Table PointerList held.maxlevel :=
  (held.toHandler.filledLists.map decodedPointerList).foldl insertList .nil

theorem addressesIn_rebuilt (pointervalue : UInt64) :
    addressesIn held.rebuilt pointervalue =
      (held.toHandler.addresses pointervalue).map decodedPointerData := by
  have hdistinct : (held.toHandler.filledLists.map
      decodedPointerList).Pairwise fun first second =>
        ¬ SamePath held.maxlevel first.pointervalue second.pointervalue := by
    rw [pairwise_map]
    exact held.distinct_paths
  rcases held.addresses_cases pointervalue with
    ⟨entry, hentry, hsame, haddresses⟩ | ⟨hnone, haddresses⟩
  · rw [haddresses]
    exact addressesIn_foldl_of_mem hdistinct (mem_map_of_mem hentry)
      hsame .nil
  · rw [haddresses, rebuilt, addressesIn_foldl_of_ne]
    · simp [addressesIn]
    · intro entry hentry
      obtain ⟨source, hsource, rfl⟩ := mem_map.mp hentry
      exact hnone source hsource

theorem sum_filledLists :
    (held.toHandler.filledLists.map fun entry => entry.list.length).sum =
      held.count := by
  rw [held.count_eq, Handler.filledLists]
  induction toList held.maxlevel held.level0list with
  | nil => rfl
  | cons entry rest ih =>
    cases hlist : entry.list with
    | nil => simp [hlist, ih]
    | cons data others => simp [hlist, ih]

/-- What `createFromStream` returns when it does not raise. -/
def imported : Handler where
  maxlevel := held.maxlevel
  level0list := held.rebuilt
  count := held.count
  modulelist := held.modulelist.map decodedModule
  specificBaseAsStaticOnly := held.specificBaseAsStaticOnly
  basestart := (decodedBounds held.toHandler).1
  basestop := (decodedBounds held.toHandler).2

theorem createFromStream_eq :
    createFromStream (exportToStream held.toHandler) =
      if (toList held.maxlevel held.rebuilt).isEmpty then
        .error "Pointer value setup error"
      else
        .ok held.imported := by
  have hheader := reads_loadHeader held
    (held.toHandler.filledLists.flatMap writePointerList)
  have htable : readTable (decodedHeader held.toHandler)
      (held.toHandler.filledLists.flatMap writePointerList) =
        .ok ((held.count, held.rebuilt), []) :=
    loadPointerLists_ok
      (fun entry hentry => ((held.mem_filledLists_iff entry).mp hentry).2)
      (fun entry hentry => held.list_lt entry
        ((held.mem_filledLists_iff entry).mp hentry).1)
      (length_le_flatMap_writePointerList held.toHandler.filledLists)
      ((Nat.zero_add _).trans held.sum_filledLists)
      (.nil : Table PointerList held.maxlevel)
  simp only [append_assoc] at hheader
  rw [createFromStream, exportToStream, hheader]
  change (readTable (decodedHeader held.toHandler)
    (held.toHandler.filledLists.flatMap writePointerList) >>= _) = _
  rw [htable]
  rfl

end HeldHandler

/-! ## When nothing is cut -/

theorem toNat_toUInt64_lt_iff (offset : Int64) :
    offset.toUInt64.toNat < 2 ^ 32 ↔
      0 ≤ offset.toInt ∧ offset.toInt < 2 ^ 32 := by
  have hvalue : offset.toInt = offset.toBitVec.toInt := rfl
  have hlt := offset.toBitVec.isLt
  rw [← Int64.toNat_toBitVec, hvalue, BitVec.toInt_eq_toNat_cond]
  split <;> omega

theorem decodedStaticData_eq_self_iff (staticdata : StaticData) :
    decodedStaticData staticdata = staticdata ↔
      0 ≤ staticdata.offset.toInt ∧ staticdata.offset.toInt < 2 ^ 32 := by
  have hoffset : decodedStaticData staticdata = staticdata ↔
      staticdata.offset.toUInt64.toUInt32.toUInt64 =
        staticdata.offset.toUInt64 := by
    constructor
    · intro hself
      exact congrArg (fun decoded => decoded.offset.toUInt64) hself
    · intro hself
      rw [decodedStaticData, hself]
      rfl
  rw [← toNat_toUInt64_lt_iff, hoffset, ← UInt64.toNat_inj]
  simp only [UInt32.toNat_toUInt64, UInt64.toNat_toUInt32]
  omega

theorem decodedPointerData_eq_self_iff (entry : PointerData) :
    decodedPointerData entry = entry ↔
      ∀ staticdata ∈ entry.staticdata,
        0 ≤ staticdata.offset.toInt ∧ staticdata.offset.toInt < 2 ^ 32 := by
  obtain ⟨address, staticdata⟩ := entry
  cases staticdata with
  | none => simp [decodedPointerData]
  | some staticdata =>
    simp [decodedPointerData, decodedStaticData_eq_self_iff]

theorem decodedModule_eq_self_iff (entry : Module) :
    decodedModule entry = entry ↔ 0 ∉ entry.name := by
  have hname : decodedModule entry = entry ↔
      entry.name.takeWhile (· ≠ 0) = entry.name := by
    constructor
    · exact congrArg Module.name
    · intro hself
      rw [decodedModule, hself]
  rw [hname, takeWhile_eq_self_iff]
  constructor
  · intro hnonzero hzero
    simpa using hnonzero 0 hzero
  · intro hzero byte hbyte
    simp only [ne_eq, decide_not, Bool.not_eq_eq_eq_not, Bool.not_true,
      decide_eq_false_iff_not]
    rintro rfl
    exact hzero hbyte

theorem map_eq_self_iff {α : Type*} (f : α → α) (l : List α) :
    l.map f = l ↔ ∀ a ∈ l, f a = a := by
  conv_lhs => rhs; rw [← map_id l]
  rw [map_eq_map_iff]
  rfl

theorem toList_ne_nil_of_addressesIn {table : Table PointerList maxlevel}
    (haddresses : addressesIn table pointervalue ≠ []) :
    toList maxlevel table ≠ [] := by
  have hpositive : 0 < 16 ^ (maxlevel + 1) := by positivity
  have hreduce : ∀ level ≤ maxlevel, digit level pointervalue.toNat =
      digit level (pointervalue.toNat % 16 ^ (maxlevel + 1)) := by
    apply (mod_eq_iff_digits maxlevel _ _).mp
    rw [Nat.mod_mod]
  rw [addressesIn, find_congr maxlevel table hreduce] at haddresses
  cases hfind : find maxlevel table
      (pointervalue.toNat % 16 ^ (maxlevel + 1)) with
  | none => simp [hfind] at haddresses
  | some entry =>
    have hmem := (mem_entries maxlevel table _ entry).mpr
      ⟨Nat.mod_lt _ hpositive, hfind⟩
    rw [toList_eq_entries]
    exact ne_nil_of_mem (mem_map_of_mem hmem)

/-- Every name ends where its bytes end, every module offset is a dword, and
there is something to write. -/
structure FitsFormat (handler : Handler) : Prop where
  names : ∀ entry ∈ handler.modulelist, 0 ∉ entry.name
  offsets : ∀ entry ∈ toList handler.maxlevel handler.level0list,
    ∀ data ∈ entry.list, ∀ staticdata ∈ data.staticdata,
      0 ≤ staticdata.offset.toInt ∧ staticdata.offset.toInt < 2 ^ 32
  count_pos : 0 < handler.count

namespace HeldHandler

variable (held : HeldHandler)

theorem count_pos_iff : 0 < held.count ↔ held.toHandler.filledLists ≠ [] := by
  rw [← held.sum_filledLists]
  constructor
  · rintro hpositive hnil
    simp [hnil] at hpositive
  · intro hfilled
    obtain ⟨entry, hentry⟩ := exists_mem_of_ne_nil _ hfilled
    have hlist := ((held.mem_filledLists_iff entry).mp hentry).2
    calc
      0 < entry.list.length := length_pos_of_ne_nil hlist
      _ ≤ _ := le_sum_of_mem (mem_map.mpr ⟨entry, hentry, rfl⟩)

theorem toList_rebuilt_eq_nil_iff :
    toList held.maxlevel held.rebuilt = [] ↔ held.count = 0 := by
  constructor
  · intro hnil
    by_contra hcount
    have hfilled := held.count_pos_iff.mp (Nat.pos_of_ne_zero hcount)
    obtain ⟨entry, hentry⟩ := exists_mem_of_ne_nil _ hfilled
    obtain ⟨hmem, hlist⟩ := (held.mem_filledLists_iff entry).mp hentry
    have haddresses : addressesIn held.rebuilt entry.pointervalue ≠ [] := by
      rw [held.addressesIn_rebuilt, Handler.addresses, addressesIn,
        ((held.placed.mem_toList_iff entry).mp hmem).2]
      simpa using hlist
    exact toList_ne_nil_of_addressesIn haddresses hnil
  · intro hcount
    have hnil : held.toHandler.filledLists = [] := by
      by_contra hfilled
      have hpositive := held.count_pos_iff.mpr hfilled
      omega
    rw [rebuilt, hnil]
    exact toList_nil held.maxlevel

theorem forall_addresses_iff (property : PointerData → Prop) :
    (∀ pointervalue, ∀ data ∈ held.toHandler.addresses pointervalue,
      property data) ↔
      ∀ entry ∈ toList held.maxlevel held.level0list,
        ∀ data ∈ entry.list, property data := by
  constructor
  · intro hall entry hentry data hdata
    apply hall entry.pointervalue
    rw [Handler.addresses, addressesIn,
      ((held.placed.mem_toList_iff entry).mp hentry).2]
    exact hdata
  · intro hall pointervalue data hdata
    rcases held.addresses_cases pointervalue with
      ⟨entry, hentry, -, haddresses⟩ | ⟨-, haddresses⟩
    · rw [haddresses] at hdata
      exact hall entry ((held.mem_filledLists_iff entry).mp hentry).1 data hdata
    · simp [haddresses] at hdata

theorem sameMap_imported_iff :
    SameMap held.toHandler held.imported ↔
      (∀ entry ∈ held.modulelist, 0 ∉ entry.name) ∧
        ∀ entry ∈ toList held.maxlevel held.level0list,
          ∀ data ∈ entry.list, ∀ staticdata ∈ data.staticdata,
            0 ≤ staticdata.offset.toInt ∧
              staticdata.offset.toInt < 2 ^ 32 := by
  have hmodules : held.modulelist = held.imported.modulelist ↔
      ∀ entry ∈ held.modulelist, 0 ∉ entry.name := by
    simp only [← decodedModule_eq_self_iff]
    rw [← map_eq_self_iff, eq_comm]
    rfl
  have haddresses : (∀ pointervalue, held.toHandler.addresses pointervalue =
      held.imported.addresses pointervalue) ↔
        ∀ entry ∈ toList held.maxlevel held.level0list,
          ∀ data ∈ entry.list, ∀ staticdata ∈ data.staticdata,
            0 ≤ staticdata.offset.toInt ∧
              staticdata.offset.toInt < 2 ^ 32 := by
    simp only [← decodedPointerData_eq_self_iff]
    rw [← held.forall_addresses_iff]
    simp only [← map_eq_self_iff]
    apply forall_congr'
    intro pointervalue
    rw [eq_comm, ← held.addressesIn_rebuilt]
    rfl
  rw [← hmodules, ← haddresses]
  constructor
  · intro hsame
    exact ⟨hsame.modulelist, hsame.addresses⟩
  · rintro ⟨hmodulelist, hall⟩
    refine ⟨rfl, hmodulelist, rfl, ?_, hall⟩
    intro hspecific
    simp [imported, decodedBounds, hspecific]

end HeldHandler

theorem createFromStream_exportToStream_iff (held : HeldHandler) :
    (∃ imported, createFromStream (exportToStream held.toHandler) =
        .ok imported ∧ SameMap held.toHandler imported) ↔
      FitsFormat held.toHandler := by
  have hresult := held.createFromStream_eq
  by_cases hcount : held.count = 0
  · have hnil := held.toList_rebuilt_eq_nil_iff.mpr hcount
    rw [hnil] at hresult
    constructor
    · rintro ⟨imported, himported, -⟩
      rw [hresult] at himported
      cases himported
    · intro hfits
      have hpositive := hfits.count_pos
      omega
  · have hfilled : (toList held.maxlevel held.rebuilt).isEmpty = false := by
      rw [isEmpty_eq_false_iff]
      exact fun hnil => hcount (held.toList_rebuilt_eq_nil_iff.mp hnil)
    rw [hfilled] at hresult
    constructor
    · rintro ⟨imported, himported, hsame⟩
      rw [hresult] at himported
      cases himported
      obtain ⟨hnames, hoffsets⟩ := held.sameMap_imported_iff.mp hsame
      exact ⟨hnames, hoffsets, Nat.pos_of_ne_zero hcount⟩
    · intro hfits
      exact ⟨held.imported, hresult, held.sameMap_imported_iff.mpr
        ⟨hfits.names, hfits.offsets⟩⟩

/-- A stack slot eight bytes below the address its thread's offsets count from. -/
def belowStackStart : PointerList where
  pointervalue := 0x10
  expectedsize := 6
  maxsize := 6
  list := [{ address := 0x20
             staticdata := some { moduleindex := 0, offset := -8 } }]

def stackHandler : Handler where
  maxlevel := 7
  level0list := findoraddpointervalue 0x10 (fun _ => belowStackStart) .nil
  count := 1
  modulelist := [{ name := [83], base := 0x28 }]
  specificBaseAsStaticOnly := false
  basestart := 0
  basestop := 0

theorem toList_stackHandler :
    toList 7 stackHandler.level0list = [belowStackStart] := by
  decide

theorem stackHandler_placed {key : ℕ} (hkey : key < 16 ^ (7 + 1))
    (hfind : find 7 stackHandler.level0list key = some entry) :
    entry.pointervalue.toNat = key := by
  have hmem := (mem_entries 7 stackHandler.level0list key entry).mpr
    ⟨hkey, hfind⟩
  have hentries : entries 7 stackHandler.level0list =
      [(0x10, belowStackStart)] := by
    decide
  rw [hentries, mem_singleton] at hmem
  cases hmem
  rfl

def heldStackHandler : HeldHandler where
  toHandler := stackHandler
  maxlevel_eq := .inl rfl
  placed := fun _ hkey _ hfind => stackHandler_placed hkey hfind
  count_eq := by
    change 1 = ((toList 7 stackHandler.level0list).map
      fun entry => entry.list.length).sum
    rw [toList_stackHandler]
    rfl
  count_lt := by decide
  list_lt := by
    change ∀ entry ∈ toList 7 stackHandler.level0list, _
    rw [toList_stackHandler]
    decide
  modulelist_lt := by decide
  name_lt := by decide

theorem createFromStream_cuts_stack_offset :
    ¬ ∃ imported, createFromStream (exportToStream heldStackHandler.toHandler) =
        .ok imported ∧ SameMap heldStackHandler.toHandler imported := by
  rintro ⟨imported, himported, hsame⟩
  rw [heldStackHandler.createFromStream_eq] at himported
  split at himported
  · cases himported
  · cases himported
    have hoffsets := (heldStackHandler.sameMap_imported_iff.mp hsame).2
    have hentry : belowStackStart ∈ toList heldStackHandler.maxlevel
        heldStackHandler.level0list := by
      change _ ∈ toList 7 stackHandler.level0list
      rw [toList_stackHandler]
      exact mem_singleton_self _
    have hoffset := hoffsets belowStackStart hentry _
      (mem_singleton_self _) _ rfl
    exact absurd hoffset (by decide)

end PointerValueList
end CheatEngine
