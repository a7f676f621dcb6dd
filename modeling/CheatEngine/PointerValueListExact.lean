import CheatEngine.PointerValueListCreate

/-!
# The reverse pointer map is exact

For an address that no scanned region cuts, the map holds the pair of a value
and the address exactly when the word at the address is this value and passes
the filters of the scan.
-/

namespace CheatEngine.PointerValueList

open List ByteStream RadixTree

theorem mem_stepsBelow {step : ℕ} (hstep : 0 < step) (bound turns value : ℕ)
    (hturns : bound ≤ turns + value) (found : ℕ) :
    found ∈ stepsBelow step bound turns value ↔
      found < bound ∧ ∃ k, found = value + step * k := by
  induction turns generalizing value with
  | zero =>
    simp only [stepsBelow, not_mem_nil, false_iff, not_and, not_exists]
    intro hfound k heq
    omega
  | succ turns ih =>
    rw [stepsBelow]
    by_cases hvalue : value < bound
    · rw [if_pos hvalue, mem_cons, ih (value + step) (by omega)]
      constructor
      · rintro (rfl | ⟨hfound, k, rfl⟩)
        · exact ⟨hvalue, 0, by simp⟩
        · exact ⟨hfound, k + 1, by ring⟩
      · rintro ⟨hfound, k, rfl⟩
        cases k with
        | zero => exact .inl (by simp)
        | succ k => exact .inr ⟨hfound, k, by ring⟩
    · rw [if_neg hvalue]
      simp only [not_mem_nil, false_iff, not_and, not_exists]
      rintro hfound k rfl
      exact hvalue (lt_of_le_of_lt (Nat.le_add_right _ _) hfound)

variable (target : Target) (settings : Settings)

theorem Settings.step_pos : 0 < settings.step := by
  unfold Settings.step
  split <;> decide

theorem mem_offsets (bound offset : ℕ) :
    offset ∈ stepsBelow settings.step bound bound 0 ↔
      offset < bound ∧ settings.step ∣ offset := by
  rw [mem_stepsBelow settings.step_pos bound bound 0 (by omega)]
  simp only [Nat.zero_add, Dvd.dvd]

/-! ## Adding to the tree -/

def Contains {maxlevel : ℕ} (table : Table PointerList maxlevel)
    (pointervalue address : UInt64) : Prop :=
  ∃ entry ∈ toList maxlevel table, entry.pointervalue = pointervalue ∧
    ∃ data ∈ entry.list, data.address = address

section

variable {maxlevel : ℕ} {table : Table PointerList maxlevel}

variable (target : Target) (settings : Settings) (pointervalue : UInt64)

theorem not_contains_nil (address : UInt64) :
    ¬ Contains (.nil : Table PointerList maxlevel) pointervalue address := by
  rintro ⟨entry, hentry, -⟩
  simp at hentry

theorem Placed.contains_iff (hplaced : Placed table)
    (pointervalue address : UInt64) :
    Contains table pointervalue address ↔
      pointervalue.toNat < 16 ^ (maxlevel + 1) ∧
        ∃ data ∈ addressesIn table pointervalue, data.address = address := by
  constructor
  · rintro ⟨entry, hentry, rfl, data, hdata, rfl⟩
    obtain ⟨hlt, hfind⟩ := (hplaced.mem_toList_iff entry).mp hentry
    refine ⟨hlt, data, ?_, rfl⟩
    rw [addressesIn, hfind]
    exact hdata
  · rintro ⟨hlt, data, hdata, rfl⟩
    cases hfind : find maxlevel table pointervalue.toNat with
    | none => simp [addressesIn, hfind] at hdata
    | some entry =>
      have hvalue : entry.pointervalue = pointervalue :=
        UInt64.toNat_inj.mp (hplaced _ hlt entry hfind)
      refine ⟨entry, ?_, hvalue, data, ?_, rfl⟩
      · rw [hplaced.mem_toList_iff, hvalue]
        exact ⟨hlt, hfind⟩
      · simpa [addressesIn, hfind] using hdata

theorem Placed.getD_find (hplaced : Placed table) {added : UInt64}
    (hadded : added.toNat < 16 ^ (maxlevel + 1)) :
    ((find maxlevel table added.toNat).getD
      (newPointerList added)).pointervalue = added := by
  cases hfind : find maxlevel table added.toNat with
  | none => rfl
  | some entry => exact UInt64.toNat_inj.mp (hplaced _ hadded entry hfind)

theorem Placed.findoraddpointervalue (hplaced : Placed table)
    {change : PointerList → PointerList}
    (hchange : ∀ entry, (change entry).pointervalue = entry.pointervalue)
    {added : UInt64} (hadded : added.toNat < 16 ^ (maxlevel + 1)) :
    Placed (findoraddpointervalue added change table) := by
  intro key hkey entry hfind
  by_cases hsame : ∀ level ≤ maxlevel, digit level key = digit level added.toNat
  · have hkeyEq : key = added.toNat := by
      have hmod := (mod_eq_iff_digits maxlevel key added.toNat).mpr hsame
      rwa [Nat.mod_eq_of_lt hkey, Nat.mod_eq_of_lt hadded] at hmod
    rw [find_congr maxlevel _ hsame, PointerValueList.findoraddpointervalue,
      find_alter_self, Option.some.injEq] at hfind
    rw [← hfind, hchange, hplaced.getD_find hadded, hkeyEq]
  · push Not at hsame
    rw [PointerValueList.findoraddpointervalue, find_alter_of_ne _ _ _ hsame]
      at hfind
    exact hplaced key hkey entry hfind

theorem ensureRoom_pointervalue (entry : PointerList) :
    entry.ensureRoom.pointervalue = entry.pointervalue := by
  unfold PointerList.ensureRoom
  dsimp only
  split <;> split <;> rfl

/-- The first list of a value will have room, and a list that exists holds no
more than it has room for. -/
def PointerList.Roomy (entry : PointerList) : Prop :=
  0 < entry.expectedsize ∧
    (entry.list ≠ [] → 0 < entry.maxsize ∧ entry.list.length ≤ entry.maxsize)

theorem newPointerList_roomy : (newPointerList pointervalue).Roomy := by
  constructor
  · unfold newPointerList guessedSize
    dsimp only
    repeat' split
    all_goals decide
  · intro hlist
    exact absurd rfl hlist

theorem ensureRoom_expectedsize (entry : PointerList) :
    entry.ensureRoom.expectedsize = entry.expectedsize := by
  unfold PointerList.ensureRoom
  dsimp only
  split <;> split <;> rfl

theorem PointerList.Roomy.length_lt {entry : PointerList}
    (hroomy : entry.Roomy) :
    entry.list.length < entry.ensureRoom.maxsize := by
  obtain ⟨hexpected, hlist⟩ := hroomy
  unfold PointerList.ensureRoom
  by_cases hnil : entry.list = []
  · simp only [hnil, if_true, length_nil]
    split <;> omega
  · obtain ⟨hpositive, hle⟩ := hlist hnil
    simp only [hnil, if_false]
    split
    · change _ < entry.maxsize * 4
      omega
    · omega

theorem PointerList.Roomy.append {entry : PointerList} (hroomy : entry.Roomy)
    (data : PointerData) :
    { entry.ensureRoom with list := entry.list ++ [data] }.Roomy := by
  have hlt := hroomy.length_lt
  constructor
  · rw [ensureRoom_expectedsize]
    exact hroomy.1
  · intro _
    simp only [length_append, length_singleton]
    omega

def AllRoomy (table : Table PointerList maxlevel) : Prop :=
  ∀ key entry, find maxlevel table key = some entry → entry.Roomy

theorem allRoomy_addpointer (hroomy : AllRoomy table)
    (pointervalue address : UInt64) (add : Bool) :
    AllRoomy (addpointer target settings pointervalue address add table) := by
  intro key entry hfind
  by_cases hsame : ∀ level ≤ maxlevel,
      digit level key = digit level pointervalue.toNat
  · have hbefore : ((find maxlevel table pointervalue.toNat).getD
        (newPointerList pointervalue)).Roomy := by
      cases hfound : find maxlevel table pointervalue.toNat with
      | none => exact newPointerList_roomy pointervalue
      | some found => exact hroomy _ found hfound
    rw [find_congr maxlevel _ hsame, addpointer, findoraddpointervalue,
      find_alter_self, Option.some.injEq] at hfind
    rw [← hfind]
    split
    · exact hbefore.append _
    · exact ⟨Nat.succ_pos _, hbefore.2⟩
  · push Not at hsame
    rw [addpointer, findoraddpointervalue, find_alter_of_ne _ _ _ hsame]
      at hfind
    exact hroomy key entry hfind

theorem placed_addpointer (hplaced : Placed table) {pointervalue : UInt64}
    (hvalue : pointervalue.toNat < 16 ^ (maxlevel + 1)) (address : UInt64)
    (add : Bool) :
    Placed (addpointer target settings pointervalue address add table) := by
  apply hplaced.findoraddpointervalue _ hvalue
  intro entry
  split
  · exact ensureRoom_pointervalue entry
  · rfl

theorem addressesIn_addpointer_self (address : UInt64) (add : Bool) :
    addressesIn (addpointer target settings pointervalue address add table)
        pointervalue =
      addressesIn table pointervalue ++
        if add then [{ address, staticdata := isStatic target settings address }]
        else [] := by
  have hsame : SamePath maxlevel pointervalue pointervalue := fun _ _ => rfl
  have hlist : ((find maxlevel table pointervalue.toNat).getD
      (newPointerList pointervalue)).list = addressesIn table pointervalue := by
    rw [addressesIn]
    cases find maxlevel table pointervalue.toNat <;> rfl
  rw [addpointer, addressesIn_findoraddpointervalue_self _ hsame, ← hlist]
  cases add <;> simp

theorem contains_addpointer_iff (hplaced : Placed table)
    {pointervalue : UInt64}
    (hvalue : pointervalue.toNat < 16 ^ (maxlevel + 1)) (address : UInt64)
    (add : Bool) (value found : UInt64) :
    Contains (addpointer target settings pointervalue address add table)
        value found ↔
      Contains table value found ∨
        add = true ∧ value = pointervalue ∧ found = address := by
  have hafter := placed_addpointer target settings hplaced hvalue address add
  rw [hafter.contains_iff, hplaced.contains_iff]
  by_cases heq : value = pointervalue
  · subst value
    rw [addressesIn_addpointer_self]
    cases add with
    | false => simp
    | true =>
      simp only [if_true, mem_append, mem_singleton, or_and_right,
        exists_or, exists_eq_left, true_and, hvalue]
      rw [@eq_comm _ address found]
  · have hsame : addressesIn (addpointer target settings pointervalue address
        add table) value = addressesIn table value ∨
          ¬ value.toNat < 16 ^ (maxlevel + 1) := by
      by_cases hlt : value.toNat < 16 ^ (maxlevel + 1)
      · left
        have hpath := mt (samePath_iff hlt hvalue).mp heq
        rw [addressesIn, addpointer, find_findoraddpointervalue_of_ne _ hpath,
          addressesIn]
      · exact .inr hlt
    rcases hsame with hsame | hlt
    · simp [hsame, heq]
    · simp [hlt, heq]

end

/-! ## The passes -/

theorem leValue_lt (block : List UInt8) :
    leValue block < 256 ^ block.length := by
  induction block with
  | nil => simp [leValue]
  | cons byte rest ih =>
    have hbyte := byte.toNat_lt
    have hvalue : leValue (byte :: rest) =
        byte.toNat + 256 * leValue rest := rfl
    rw [hvalue, length_cons, pow_succ]
    omega

theorem wordAt_lt (buffer : Buffer) (offset : ℕ) :
    (wordAt target buffer offset).toNat < 16 ^ (target.maxlevel + 1) := by
  have hlt := leValue_lt ((List.range target.pointersize).map fun i =>
    buffer (offset + i))
  have hsize : 256 ^ target.pointersize = 16 ^ (target.maxlevel + 1) := by
    unfold Target.pointersize Target.maxlevel
    split <;> norm_num
  rw [length_map, length_range, hsize] at hlt
  rw [wordAt, UInt64.toNat_ofNat']
  exact lt_of_le_of_lt (Nat.mod_le _ _) hlt

def wordOf (target : Target) (address : UInt64) : UInt64 :=
  wordAt target (fun i => target.memory (address + UInt64.ofNat i)) 0

theorem wordAt_readprocessmemory {target : Target} {base : UInt64} {size : ℕ}
    (hread : target.readable base size = true) (buffer : Buffer) {offset : ℕ}
    (hoffset : offset + target.pointersize ≤ size) :
    wordAt target (readprocessmemory target base size buffer).2 offset =
      wordOf target (base + UInt64.ofNat offset) := by
  unfold wordOf wordAt
  congr 2
  apply map_congr_left
  intro i hi
  have hlt : offset + i < size := by
    have := mem_range.mp hi
    omega
  simp only [readprocessmemory, hread, if_true, hlt, Nat.zero_add]
  rw [UInt64.ofNat_add, UInt64.add_assoc]

section

variable (target : Target) (settings : Settings)
  (memoryregion : List MemoryRegion)

structure Accepted (value address : UInt64) : Prop where
  aligned : settings.alligned = true → value % 4 = 0
  points : ispointer settings memoryregion value = true
  class_pointer : settings.mustbeclasspointers = true →
    isClassPointer target settings memoryregion value = true
  page : isScannablePage settings address = true

/-- The tree is in order and the map of class pointers tells the truth. -/
structure Scan.Sound (scan : Scan target.maxlevel) : Prop where
  placed : Placed scan.level0list
  roomy : AllRoomy scan.level0list
  cached : ∀ value valid, scan.inModulePointerMap value = some valid →
    valid = isClassPointer target settings memoryregion value

variable {target settings memoryregion}

theorem checkClassPointer_fst {inModulePointerMap : UInt64 → Option Bool}
    (hcached : ∀ value valid, inModulePointerMap value = some valid →
      valid = isClassPointer target settings memoryregion value)
    (value : UInt64) :
    (checkClassPointer target settings memoryregion value
      inModulePointerMap).1 =
      (!settings.mustbeclasspointers ||
        isClassPointer target settings memoryregion value) := by
  unfold checkClassPointer
  cases settings.mustbeclasspointers with
  | false => rfl
  | true =>
    cases hfound : inModulePointerMap value with
    | none => rfl
    | some valid => exact hcached value valid hfound

theorem checkClassPointer_cached {inModulePointerMap : UInt64 → Option Bool}
    (hcached : ∀ value valid, inModulePointerMap value = some valid →
      valid = isClassPointer target settings memoryregion value)
    (value : UInt64) :
    ∀ other valid, (checkClassPointer target settings memoryregion value
      inModulePointerMap).2 other = some valid →
        valid = isClassPointer target settings memoryregion other := by
  unfold checkClassPointer
  split
  · split
    · exact hcached
    · intro other valid hother
      dsimp only at hother
      by_cases heq : other = value
      · subst other
        rw [Function.update_self, Option.some.injEq] at hother
        exact hother.symm
      · rw [Function.update_of_ne heq] at hother
        exact hcached other valid hother
  · exact hcached

variable {scan : Scan target.maxlevel}

theorem scanWord_spec (hsound : scan.Sound target settings memoryregion)
    (add : Bool) (region : MemoryRegion) (offset : ℕ) :
    (scanWord target settings memoryregion add region scan offset).Sound
        target settings memoryregion ∧
      (scanWord target settings memoryregion add region scan offset).buffer =
        scan.buffer ∧
      ∀ value address,
        Contains (scanWord target settings memoryregion add region scan
            offset).level0list value address ↔
          Contains scan.level0list value address ∨
            add = true ∧ value = wordAt target scan.buffer offset ∧
              address = region.baseAddress + UInt64.ofNat offset ∧
                Accepted target settings memoryregion value address := by
  have hlt := wordAt_lt target scan.buffer offset
  have hfirst := checkClassPointer_fst hsound.cached
    (wordAt target scan.buffer offset)
  have hcached := checkClassPointer_cached hsound.cached
    (wordAt target scan.buffer offset)
  have hskip : ∀ inModulePointerMap value address,
      ¬ Accepted target settings memoryregion
          (wordAt target scan.buffer offset)
          (region.baseAddress + UInt64.ofNat offset) →
        (Contains { scan with inModulePointerMap }.level0list value address ↔
          Contains scan.level0list value address ∨
            add = true ∧ value = wordAt target scan.buffer offset ∧
              address = region.baseAddress + UInt64.ofNat offset ∧
                Accepted target settings memoryregion value address) := by
    intro inModulePointerMap value address hrejected
    constructor
    · exact Or.inl
    · rintro (hbefore | ⟨-, rfl, rfl, haccepted⟩)
      · exact hbefore
      · exact absurd haccepted hrejected
  unfold scanWord
  dsimp only
  split
  case isTrue hpoints =>
    split
    case isTrue hvalid =>
      rw [hfirst] at hvalid
      have haccepted : Accepted target settings memoryregion
          (wordAt target scan.buffer offset)
          (region.baseAddress + UInt64.ofNat offset) := by
        constructor <;> grind
      refine ⟨⟨?_, ?_, hcached⟩, rfl, ?_⟩
      · exact placed_addpointer target settings hsound.placed hlt _ add
      · exact allRoomy_addpointer target settings hsound.roomy _ _ add
      · intro value address
        rw [contains_addpointer_iff target settings hsound.placed hlt]
        constructor
        · rintro (hbefore | ⟨hadd, rfl, rfl⟩)
          · exact .inl hbefore
          · exact .inr ⟨hadd, rfl, rfl, haccepted⟩
        · rintro (hbefore | ⟨hadd, rfl, rfl, -⟩)
          · exact .inl hbefore
          · exact .inr ⟨hadd, rfl, rfl⟩
    case isFalse hinvalid =>
      rw [hfirst] at hinvalid
      refine ⟨⟨hsound.placed, hsound.roomy, hcached⟩, rfl, ?_⟩
      intro value address
      apply hskip
      rintro ⟨-, -, hclass, hpage⟩
      grind
  case isFalse hpoints =>
    refine ⟨hsound, rfl, ?_⟩
    intro value address
    apply hskip scan.inModulePointerMap
    rintro ⟨haligned, hpointer, -, -⟩
    grind

theorem foldl_scanWord_spec (offsets : List ℕ)
    (hsound : scan.Sound target settings memoryregion) (add : Bool)
    (region : MemoryRegion) :
    (offsets.foldl (scanWord target settings memoryregion add region)
        scan).Sound target settings memoryregion ∧
      ∀ value address,
        Contains (offsets.foldl (scanWord target settings memoryregion add
            region) scan).level0list value address ↔
          Contains scan.level0list value address ∨
            ∃ offset ∈ offsets, add = true ∧
              value = wordAt target scan.buffer offset ∧
              address = region.baseAddress + UInt64.ofNat offset ∧
                Accepted target settings memoryregion value address := by
  induction offsets generalizing scan with
  | nil => exact ⟨hsound, by simp⟩
  | cons offset rest ih =>
    obtain ⟨hnext, hbuffer, hcontains⟩ :=
      scanWord_spec hsound add region offset
    obtain ⟨hlast, hrest⟩ := ih hnext
    refine ⟨hlast, ?_⟩
    intro value address
    rw [foldl_cons, hrest value address, hcontains value address,
      hbuffer, or_assoc, exists_mem_cons_iff]

theorem scanRegion_spec (hsound : scan.Sound target settings memoryregion)
    (add : Bool) (bound : ℕ) (region : MemoryRegion) :
    (scanRegion target settings memoryregion add bound region scan).Sound
        target settings memoryregion ∧
      ∀ value address,
        Contains (scanRegion target settings memoryregion add bound region
            scan).level0list value address ↔
          Contains scan.level0list value address ∨
            target.readable region.baseAddress region.memorySize.toNat = true ∧
              ∃ offset, (offset < bound ∧ settings.step ∣ offset) ∧
                add = true ∧
                value = wordAt target (readprocessmemory target
                  region.baseAddress region.memorySize.toNat
                    scan.buffer).2 offset ∧
                address = region.baseAddress + UInt64.ofNat offset ∧
                  Accepted target settings memoryregion value address := by
  have hread : (readprocessmemory target region.baseAddress
      region.memorySize.toNat scan.buffer).1 =
        target.readable region.baseAddress region.memorySize.toNat := rfl
  have hbuffer : Scan.Sound target settings memoryregion
      { scan with buffer := (readprocessmemory target region.baseAddress
        region.memorySize.toNat scan.buffer).2 } :=
    ⟨hsound.placed, hsound.roomy, hsound.cached⟩
  unfold scanRegion
  dsimp only
  rw [hread]
  split
  case isTrue hsuccess =>
    obtain ⟨hlast, hcontains⟩ := foldl_scanWord_spec
      (stepsBelow settings.step bound bound 0) hbuffer add region
    refine ⟨hlast, ?_⟩
    intro value address
    rw [hcontains value address]
    simp only [hsuccess, true_and, mem_offsets]
  case isFalse hfailure =>
    refine ⟨hbuffer, ?_⟩
    intro value address
    simp [hfailure]

theorem initialScan_spec (hsound : scan.Sound target settings memoryregion)
    (region : MemoryRegion) :
    (initialScan target settings memoryregion scan region).Sound
        target settings memoryregion ∧
      ∀ value address,
        Contains (initialScan target settings memoryregion scan
            region).level0list value address ↔
          Contains scan.level0list value address := by
  unfold initialScan
  split
  · obtain ⟨hlast, hcontains⟩ := scanRegion_spec hsound false
      (region.memorySize.toNat + 1 - target.pointersize) region
    refine ⟨hlast, ?_⟩
    intro value address
    rw [hcontains value address]
    simp
  · exact ⟨hsound, fun _ _ => Iff.rfl⟩

theorem foldl_initialScan_spec (regions : List MemoryRegion)
    (hsound : scan.Sound target settings memoryregion) :
    (regions.foldl (initialScan target settings memoryregion) scan).Sound
        target settings memoryregion ∧
      ∀ value address,
        Contains (regions.foldl (initialScan target settings memoryregion)
            scan).level0list value address ↔
          Contains scan.level0list value address := by
  induction regions generalizing scan with
  | nil => exact ⟨hsound, fun _ _ => Iff.rfl⟩
  | cons region rest ih =>
    obtain ⟨hnext, hcontains⟩ := initialScan_spec hsound region
    obtain ⟨hlast, hrest⟩ := ih hnext
    refine ⟨hlast, ?_⟩
    intro value address
    rw [foldl_cons, hrest value address, hcontains value address]

variable (target settings) in
/-- The word at the address lies wholly in the region, on the grid of the scan,
and was read. -/
def RecordedIn (region : MemoryRegion) (value address : UInt64) : Prop :=
  target.readable region.baseAddress region.memorySize.toNat = true ∧
    ∃ offset, offset + target.pointersize ≤ region.memorySize.toNat ∧
      settings.step ∣ offset ∧
      address = region.baseAddress + UInt64.ofNat offset ∧
      value = wordOf target address

def KeepsWhole (region : MemoryRegion) (pointersize : ℕ) (address : UInt64) :
    Prop :=
  ∀ offset < region.memorySize.toNat,
    address = region.baseAddress + UInt64.ofNat offset →
      offset + pointersize ≤ region.memorySize.toNat

theorem Target.pointersize_pos (target : Target) : 0 < target.pointersize := by
  unfold Target.pointersize
  split <;> decide

theorem secondaryScan_spec (hsound : scan.Sound target settings memoryregion)
    (region : MemoryRegion) :
    (secondaryScan target settings memoryregion scan region).Sound
        target settings memoryregion ∧
      ∀ value address, KeepsWhole region target.pointersize address →
        (Contains (secondaryScan target settings memoryregion scan
            region).level0list value address ↔
          Contains scan.level0list value address ∨
            RecordedIn target settings region value address ∧
              Accepted target settings memoryregion value address) := by
  obtain ⟨hlast, hcontains⟩ := scanRegion_spec hsound true
    region.memorySize.toNat region
  refine ⟨hlast, ?_⟩
  intro value address hwhole
  unfold secondaryScan
  rw [hcontains value address]
  apply or_congr Iff.rfl
  have hpositive := target.pointersize_pos
  constructor
  · rintro ⟨hread, offset, ⟨hlt, hstep⟩, -, hvalue, haddress, haccepted⟩
    have hinside := hwhole offset hlt haddress
    refine ⟨⟨hread, offset, hinside, hstep, haddress, ?_⟩, haccepted⟩
    rw [hvalue, wordAt_readprocessmemory hread _ hinside, haddress]
  · rintro ⟨⟨hread, offset, hinside, hstep, haddress, hvalue⟩, haccepted⟩
    refine ⟨hread, offset, ⟨by omega, hstep⟩, rfl, ?_, haddress, haccepted⟩
    rw [hvalue, wordAt_readprocessmemory hread _ hinside, haddress]

theorem foldl_secondaryScan_spec (regions : List MemoryRegion)
    (hsound : scan.Sound target settings memoryregion) :
    (regions.foldl (secondaryScan target settings memoryregion) scan).Sound
        target settings memoryregion ∧
      ∀ value address,
        (∀ region ∈ regions, KeepsWhole region target.pointersize address) →
        (Contains (regions.foldl (secondaryScan target settings memoryregion)
            scan).level0list value address ↔
          Contains scan.level0list value address ∨
            ∃ region ∈ regions,
              RecordedIn target settings region value address ∧
                Accepted target settings memoryregion value address) := by
  induction regions generalizing scan with
  | nil => exact ⟨hsound, by simp⟩
  | cons region rest ih =>
    obtain ⟨hnext, hcontains⟩ := secondaryScan_spec hsound region
    obtain ⟨hlast, hrest⟩ := ih hnext
    refine ⟨hlast, ?_⟩
    intro value address hwhole
    rw [foldl_cons,
      hrest value address fun other hother =>
        hwhole other (mem_cons_of_mem _ hother),
      hcontains value address (hwhole region (by simp)), or_assoc,
      exists_mem_cons_iff]

end

/-! ## The map -/

theorem emptyScan_sound (memoryregion : List MemoryRegion) :
    (emptyScan target).Sound target settings memoryregion where
  placed := placed_nil
  roomy := by
    intro key entry hfind
    rw [emptyScan, find_nil] at hfind
    cases hfind
  cached := by
    intro value valid hfound
    cases hfound

theorem runPasses_spec :
    (runPasses target settings).Sound target settings
        (memoryRegions target settings) ∧
      ∀ value address,
        (∀ region ∈ memoryRegions target settings,
          KeepsWhole region target.pointersize address) →
        (Contains (runPasses target settings).level0list value address ↔
          ∃ region ∈ memoryRegions target settings,
            RecordedIn target settings region value address ∧
              Accepted target settings (memoryRegions target settings)
                value address) := by
  obtain ⟨hcounted, hnothing⟩ := foldl_initialScan_spec
    (memoryRegions target settings)
    (emptyScan_sound target settings (memoryRegions target settings))
  obtain ⟨hfilled, hrecorded⟩ := foldl_secondaryScan_spec
    (memoryRegions target settings) hcounted
  refine ⟨hfilled, ?_⟩
  intro value address hwhole
  have hempty : ¬ Contains (emptyScan target).level0list value address :=
    not_contains_nil value address
  rw [runPasses, hrecorded value address hwhole, hnothing value address]
  simp only [hempty, false_or]

theorem create_level0list {target : Target} {settings : Settings}
    {handler : Handler} (hcreate : create target settings = .ok handler) :
    handler.maxlevel = target.maxlevel ∧
      HEq handler.level0list (runPasses target settings).level0list := by
  unfold create at hcreate
  dsimp only at hcreate
  split at hcreate
  · cases hcreate
  · split at hcreate
    · cases hcreate
    · cases hcreate
      exact ⟨rfl, HEq.rfl⟩

/-- No scanned region ends inside the word at the address, and none that holds
the address is excluded from the pointer ranges. -/
def Uncut (target : Target) (settings : Settings) (address : UInt64) : Prop :=
  ∀ region ∈ memoryRegions target settings,
    ∀ offset < region.memorySize.toNat,
      address = region.baseAddress + UInt64.ofNat offset →
        region.validPointerRange = true ∧
          offset + target.pointersize ≤ region.memorySize.toNat

theorem create_contains_iff {target : Target} {settings : Settings}
    {handler : Handler} (hcreate : create target settings = .ok handler)
    {address : UInt64} (huncut : Uncut target settings address)
    (value : UInt64) :
    Contains handler.level0list value address ↔
      ∃ region ∈ memoryRegions target settings,
        region.validPointerRange = true ∧
          RecordedIn target settings region value address ∧
            Accepted target settings (memoryRegions target settings)
              value address := by
  have hwhole : ∀ region ∈ memoryRegions target settings,
      KeepsWhole region target.pointersize address := by
    intro region hregion offset hoffset haddress
    exact (huncut region hregion offset hoffset haddress).2
  have hpasses := (runPasses_spec target settings).2 value address hwhole
  have hhandler : Contains handler.level0list value address ↔
      Contains (runPasses target settings).level0list value address := by
    obtain ⟨maxlevel, level0list⟩ := handler
    obtain ⟨hmaxlevel, htable⟩ := create_level0list hcreate
    dsimp only at hmaxlevel htable
    subst hmaxlevel
    cases htable
    rfl
  rw [hhandler, hpasses]
  constructor
  · rintro ⟨region, hregion, hrecorded, haccepted⟩
    obtain ⟨-, offset, hinside, -, haddress, -⟩ := id hrecorded
    have hpositive := target.pointersize_pos
    have hvalid := (huncut region hregion offset (by omega) haddress).1
    exact ⟨region, hregion, hvalid, hrecorded, haccepted⟩
  · rintro ⟨region, hregion, -, hrecorded, haccepted⟩
    exact ⟨region, hregion, hrecorded, haccepted⟩

/-- A 32-bit target with eight bytes at $1000: a pointer to them and a pointer
to the byte behind their first. -/
def twoWords : Target where
  is64bit := false
  memory := fun address =>
    if address = 0x1001 ∨ address = 0x1005 then 0x10
    else if address = 0x1004 then 0x01
    else 0
  readable := fun _ _ => true
  copied := fun _ _ => 0
  queried := [{ baseAddress := 0x1000
                allocationProtect := 4
                regionSize := 8
                state := memCommit
                protect := 4
                type := memPrivate }]
  inModule := fun _ => false
  inSystemModule := fun _ => false
  moduleByAddress := fun _ => none
  moduleList := []
  stackStart := fun _ => 0
  uninitialized := fun _ => 0
  uninitializedIndex := 0

def alignedScan : Settings where
  start := 0x1000
  stop := 0x2000
  alligned := true
  noreadonly := false
  mustbeclasspointers := false
  allowNonModulePointers := false
  useStacks := false
  stacksAsStaticOnly := false
  threadstacks := 0
  stacksize := 0
  specificBaseAsStaticOnly := false
  baseStart := 0
  baseStop := 0
  includeSystemModules := true
  prangelist := none
  scanMemPrivate := true
  scanMemImage := true
  scanMemMapped := true
  skipPageNocache := false

def twoWordsRegion : MemoryRegion where
  baseAddress := 0x1000
  memorySize := 8
  inModule := false
  validPointerRange := true

theorem memoryRegions_twoWords :
    memoryRegions twoWords alignedScan = [twoWordsRegion] := by
  decide

def twoWordsHandler : Handler where
  maxlevel := 7
  level0list := (runPasses twoWords alignedScan).level0list
  count := (runPasses twoWords alignedScan).count
  modulelist := modulelist twoWords alignedScan
  specificBaseAsStaticOnly := false
  basestart := 0
  basestop := 0

theorem create_twoWords :
    create twoWords alignedScan = .ok twoWordsHandler := by
  have hentries : (toList twoWords.maxlevel
      (runPasses twoWords alignedScan).level0list).isEmpty = false := by
    decide
  unfold create
  dsimp only
  rw [memoryRegions_twoWords, hentries]
  rfl

theorem twoWords_uncut {offset : ℕ} (hoffset : offset + 4 ≤ 8) :
    Uncut twoWords alignedScan (0x1000 + UInt64.ofNat offset) := by
  intro region hregion other hother haddress
  rw [memoryRegions_twoWords, mem_singleton] at hregion
  subst region
  have heq : UInt64.ofNat offset = UInt64.ofNat other :=
    UInt64.add_right_inj 0x1000 |>.mp haddress
  have hsmall : other < 8 := hother
  have hnat := congrArg UInt64.toNat heq
  rw [UInt64.toNat_ofNat', UInt64.toNat_ofNat', Nat.mod_eq_of_lt (by omega),
    Nat.mod_eq_of_lt (by omega)] at hnat
  subst other
  exact ⟨rfl, hoffset⟩

theorem create_contains_iff_twoWords :
    create twoWords alignedScan = .ok twoWordsHandler ∧
      Uncut twoWords alignedScan 0x1000 ∧
        (Contains twoWordsHandler.level0list 0x1000 0x1000 ↔
          ∃ region ∈ memoryRegions twoWords alignedScan,
            region.validPointerRange = true ∧
              RecordedIn twoWords alignedScan region 0x1000 0x1000 ∧
                Accepted twoWords alignedScan
                  (memoryRegions twoWords alignedScan) 0x1000 0x1000) :=
  ⟨create_twoWords, twoWords_uncut (by decide : 0 + 4 ≤ 8),
    create_contains_iff create_twoWords
      (twoWords_uncut (by decide : 0 + 4 ≤ 8)) 0x1000⟩

/-- The aligned scan leaves out the word $1001 at $1004, which is not a
multiple of four. -/
theorem aligned_scan_skips_unaligned_value :
    create twoWords alignedScan = .ok twoWordsHandler ∧
      ¬ (Contains twoWordsHandler.level0list 0x1001 0x1004 ↔
        ∃ region ∈ memoryRegions twoWords alignedScan,
          region.validPointerRange = true ∧
            twoWords.readable region.baseAddress region.memorySize.toNat =
              true ∧
            (∃ offset,
              offset + twoWords.pointersize ≤ region.memorySize.toNat ∧
                (0x1004 : UInt64) = region.baseAddress + UInt64.ofNat offset) ∧
            (alignedScan.alligned = true → (0x1004 : UInt64) % 4 = 0) ∧
            wordOf twoWords 0x1004 = 0x1001 ∧
            ispointer alignedScan (memoryRegions twoWords alignedScan)
              0x1001 = true) := by
  refine ⟨create_twoWords, ?_⟩
  intro hexact
  have hcontains := hexact.mpr ⟨twoWordsRegion, by
    rw [memoryRegions_twoWords]
    exact mem_singleton_self _, rfl, rfl, ⟨4, by decide, by decide⟩,
    fun _ => by decide, by decide, by
      rw [memoryRegions_twoWords]
      decide⟩
  have hwhole : ∀ region ∈ memoryRegions twoWords alignedScan,
      KeepsWhole region twoWords.pointersize 0x1004 := by
    intro region hregion offset hoffset haddress
    exact (twoWords_uncut (by decide : 4 + 4 ≤ 8) region hregion offset
      hoffset haddress).2
  obtain ⟨region, -, -, haccepted⟩ :=
    ((runPasses_spec twoWords alignedScan).2 0x1001 0x1004 hwhole).mp hcontains
  exact absurd (haccepted.aligned rfl) (by decide)

end CheatEngine.PointerValueList
