import CheatEngine.CeserverSymbolsPacking

/-!
# Round trip of the remote symbol list

What the client reads is what the server found in the symbol tables exactly
when every table and name can be read, no name has more than 255 bytes and no
size goes beyond an `int`.
-/

namespace CheatEngine.CeserverSymbols

open List ByteStream Deflate

def HasName (sections : List ElfSection) (link : ℕ) (symbol : ElfSymbol)
    (name : List UInt8) : Prop :=
  ∃ stringSection front more, sections[link]? = some stringSection ∧
    stringSection.sh_type = shtStrtab ∧
    stringSection.strings = some (front ++ (name ++ 0 :: more)) ∧
    front.length = symbol.st_name.toNat ∧ 0 ∉ name

/-- The symbols of a section that have a value, with the index of the section
with their names. -/
def ElfSection.valued (elfSection : ElfSection) : List (ℕ × ElfSymbol) :=
  if elfSection.isSymbolTable then
    ((elfSection.symbols.getD []).filter fun symbol =>
      symbol.st_value ≠ 0).map fun symbol =>
        (elfSection.sh_link.toNat, symbol)
  else
    []

def ElfFile.valued (file : ElfFile) : List (ℕ × ElfSymbol) :=
  file.sections.flatMap ElfSection.valued

def ElfFile.Readable (file : ElfFile) : Prop :=
  file.readable = true ∧
    ∀ elfSection ∈ file.sections, elfSection.isSymbolTable = true →
      elfSection.symbols ≠ none

def ElfFile.Lists (file : ElfFile) (entries : List SymbolEntry) : Prop :=
  (file.Readable ∧ List.Forall₂ (fun valued entry =>
      HasName file.sections valued.1 valued.2 entry.name ∧
        entry.address = valued.2.st_value ∧
        entry.size = valued.2.st_size.toNat) file.valued entries) ∨
    (¬ file.Readable ∧ entries = [])

def Listed (files : List UInt8 → SymbolFile) (modulepath : List UInt8)
    (entries : List SymbolEntry) : Prop :=
  if devPrefix.isPrefixOf (modulepath.takeWhile (· ≠ 0)) then
    entries = []
  else
    match files (modulepath.takeWhile (· ≠ 0)) with
    | .missing => entries = []
    | .notElf => entries = []
    | .elf file => file.Lists entries

def readUntil (callback : SymbolEntry → Bool) :
    List SymbolEntry → List SymbolEntry
  | [] => []
  | entry :: rest =>
    if 0 < entry.name.length ∧ callback entry = false then
      [entry]
    else
      entry :: readUntil callback rest

/-- The request and the reply are read to their ends, and the symbols read are
those of the file. -/
def RoundTrip (zlib : Zlib) (files : List UInt8 → SymbolFile)
    (modulepath : List UInt8) : Prop :=
  ∃ reply entries, Listed files modulepath entries ∧
    (∀ requests,
      dispatchSymbolList zlib files
        (symbolListRequest modulepath ++ requests) = .ok (reply, requests)) ∧
    ∀ callback, ∃ isexe, ∀ replies,
      enumSymbolsFromFile zlib callback (reply ++ replies) =
        .ok (readUntil (callback isexe) entries, replies)

theorem split_at_zero {bytes : List UInt8} (hzero : 0 ∈ bytes) :
    0 ∉ bytes.takeWhile (· ≠ 0) ∧
      ∃ more, bytes = bytes.takeWhile (· ≠ 0) ++ 0 :: more := by
  induction bytes with
  | nil => exact absurd hzero not_mem_nil
  | cons byte bytes ih =>
    by_cases hbyte : byte = 0
    · subst hbyte
      exact ⟨by simp, bytes, by simp⟩
    · obtain ⟨hnot, more, hmore⟩ :=
        ih ((mem_cons.mp hzero).resolve_left fun heq =>
          hbyte heq.symm)
      have htake : (byte :: bytes).takeWhile (fun x => decide (x ≠ 0)) =
          byte :: bytes.takeWhile (fun x => decide (x ≠ 0)) :=
        takeWhile_cons_of_pos (decide_eq_true hbyte)
      rw [htake]
      refine ⟨?_, more, ?_⟩
      · rw [mem_cons, not_or]
        exact ⟨fun heq => hbyte heq.symm, hnot⟩
      · rw [cons_append, ← hmore]

variable {name : List UInt8}

theorem takeWhile_to_zero (hname : 0 ∉ name) (more : List UInt8) :
    (name ++ 0 :: more).takeWhile (· ≠ 0) = name := by
  have hne : ∀ byte ∈ name, (decide (byte ≠ 0)) = true := by
    intro byte hbyte
    exact decide_eq_true fun hzero => hname (hzero ▸ hbyte)
  rw [takeWhile_append_of_pos hne,
    takeWhile_cons_of_neg (by decide), append_nil]

theorem symbolName_ok_iff {table : Option (List UInt8)} {st_name : UInt32} :
    symbolName table st_name = .ok name ↔
      ∃ front more, table = some (front ++ (name ++ 0 :: more)) ∧
        front.length = st_name.toNat ∧ 0 ∉ name := by
  constructor
  · intro hok
    cases table with
    | none => cases hok
    | some strings =>
      rw [symbolName] at hok
      split at hok
      · rename_i hzero
        obtain ⟨hnot, more, hmore⟩ := split_at_zero hzero
        have hlength : st_name.toNat ≤ strings.length := by
          by_contra hbehind
          rw [drop_of_length_le (by omega)] at hzero
          exact not_mem_nil hzero
        have hname := Except.ok.inj hok
        rw [hname] at hnot hmore
        refine ⟨strings.take st_name.toNat, more, ?_, ?_, hnot⟩
        · rw [← hmore, take_append_drop]
        · rw [length_take, min_eq_left hlength]
      · cases hok
  · rintro ⟨front, more, rfl, hfront, hname⟩
    rw [symbolName, ← hfront, drop_left, if_pos (by simp),
      takeWhile_to_zero hname]

theorem stringTable_eq_some {sections : List ElfSection} {link : ℕ}
    {strings : List UInt8} :
    stringTable sections link = some strings ↔
      ∃ stringSection, sections[link]? = some stringSection ∧
        stringSection.sh_type = shtStrtab ∧
        stringSection.strings = some strings := by
  rw [stringTable]
  cases sections[link]? with
  | none => simp
  | some stringSection => simp [Option.ite_none_right_eq_some]

theorem hasName_iff {sections : List ElfSection} {link : ℕ}
    {symbol : ElfSymbol} :
    HasName sections link symbol name ↔
      symbolName (stringTable sections link) symbol.st_name = .ok name := by
  rw [symbolName_ok_iff]
  constructor
  · rintro ⟨stringSection, front, more, hsection, htype, hstrings, hfront,
      hname⟩
    exact ⟨front, more, stringTable_eq_some.mpr
      ⟨stringSection, hsection, htype, hstrings⟩, hfront, hname⟩
  · rintro ⟨front, more, htable, hfront, hname⟩
    obtain ⟨stringSection, hsection, htype, hstrings⟩ :=
      stringTable_eq_some.mp htable
    exact ⟨stringSection, front, more, hsection, htype, hstrings, hfront,
      hname⟩

/-! ## The bytes of a file -/

def entryOf (sections : List ElfSection) (valued : ℕ × ElfSymbol) :
    SymbolEntry where
  name := nameOf (stringTable sections valued.1) valued.2
  address := valued.2.st_value
  size := valued.2.st_size.toNat

def valuedBytes (sections : List ElfSection) (valued : ℕ × ElfSymbol) :
    List UInt8 :=
  symbolEntry valued.2 (nameOf (stringTable sections valued.1) valued.2)

def ElfFile.bytes (file : ElfFile) : List UInt8 :=
  file.valued.flatMap (valuedBytes file.sections)

def ElfFile.Named (file : ElfFile) : Prop :=
  ∀ valued ∈ file.valued, HasName file.sections valued.1 valued.2
    (nameOf (stringTable file.sections valued.1) valued.2)

/-- The tables and the list can be counted by an `int`, and the compressed list
stays below 1 GB. -/
structure ElfFile.Sized (zlib : Zlib) (file : ElfFile) : Prop where
  tables : ∀ elfSection ∈ file.sections, ∀ symbolTable,
    elfSection.symbols = some symbolTable → symbolTable.length < 2 ^ 31
  packed : ∀ entries, file.Lists entries →
    (entries.map fun entry => 17 + entry.name.length).sum < 2 ^ 31 ∧
      12 + zlib.deflateBound
        (entries.map fun entry => 17 + entry.name.length).sum < 2 ^ 30

theorem symbolEntry_length (symbol : ElfSymbol) (name : List UInt8) :
    (symbolEntry symbol name).length = 17 + name.length := by
  simp only [symbolEntry, length_append, writeQWord_length,
    writeDWord_length, writeByte_length]
  omega

section

variable {file : ElfFile}

theorem forall₂_entries {sections : List ElfSection}
    {valued : List (ℕ × ElfSymbol)} {entries : List SymbolEntry} :
    List.Forall₂ (fun valued entry =>
        HasName sections valued.1 valued.2 entry.name ∧
          entry.address = valued.2.st_value ∧
          entry.size = valued.2.st_size.toNat) valued entries ↔
      (∀ one ∈ valued, HasName sections one.1 one.2
        (nameOf (stringTable sections one.1) one.2)) ∧
        entries = valued.map (entryOf sections) := by
  induction valued generalizing entries with
  | nil => simp
  | cons one valued ih =>
    rw [forall_mem_cons, map_cons]
    constructor
    · intro hforall
      cases hforall with
      | @cons _ entry _ rest hentry hrest =>
        obtain ⟨hname, haddress, hsize⟩ := hentry
        obtain ⟨hnames, hrestEq⟩ := ih.mp hrest
        have hnameOf := nameOf_eq (hasName_iff.mp hname)
        rw [hnameOf]
        refine ⟨⟨hname, hnames⟩, ?_⟩
        rw [hrestEq, entryOf, hnameOf, ← haddress, ← hsize]
    · rintro ⟨⟨hname, hnames⟩, rfl⟩
      exact .cons ⟨hname, rfl, rfl⟩ (ih.mpr ⟨hnames, rfl⟩)

theorem lists_iff {entries : List SymbolEntry} :
    file.Lists entries ↔
      (file.Readable ∧ file.Named ∧
        entries = file.valued.map (entryOf file.sections)) ∨
      (¬ file.Readable ∧ entries = []) := by
  rw [ElfFile.Lists, forall₂_entries]
  rfl

theorem entries_sum (file : ElfFile) :
    ((file.valued.map (entryOf file.sections)).map fun entry =>
        17 + entry.name.length).sum = file.bytes.length := by
  rw [ElfFile.bytes, length_flatMap, map_map]
  congr 1
  refine map_congr_left fun valued _ => ?_
  rw [valuedBytes, symbolEntry_length]
  rfl

theorem scannedSymbols_of_lt {symbolTable : List ElfSymbol}
    (hlength : symbolTable.length < 2 ^ 31) :
    scannedSymbols symbolTable = symbolTable := by
  rw [scannedSymbols, UInt32.toInt32_ofNat',
    Int32.toNatClampNeg_ofNat_of_lt hlength, take_length]

theorem packedBytes_filter (table : Option (List UInt8))
    (symbols : List ElfSymbol) :
    symbols.flatMap (packedBytes table) =
      (symbols.filter fun symbol => symbol.st_value ≠ 0).flatMap
        fun symbol => symbolEntry symbol (nameOf table symbol) := by
  induction symbols with
  | nil => rfl
  | cons symbol symbols ih =>
    rw [flatMap_cons, ih, packedBytes, filter_cons]
    by_cases hvalue : symbol.st_value = 0
    · simp [hvalue]
    · simp [hvalue]

variable {zlib : Zlib}

theorem sectionBytes_eq (hsized : file.Sized zlib) :
    file.sections.flatMap (sectionBytes file.sections) = file.bytes := by
  rw [ElfFile.bytes, ElfFile.valued, flatMap_assoc]
  refine flatMap_congr fun elfSection hsection => ?_
  rw [sectionBytes, ElfSection.valued]
  by_cases htable : elfSection.isSymbolTable = true
  · have hlength : (elfSection.symbols.getD []).length < 2 ^ 31 := by
      cases hsymbols : elfSection.symbols with
      | none => decide
      | some symbolTable =>
        exact hsized.tables elfSection hsection symbolTable hsymbols
    rw [if_pos htable, if_pos htable, scannedSymbols_of_lt hlength,
      packedBytes_filter, flatMap_map]
    rfl
  · rw [if_neg htable, if_neg htable]
    rfl

structure ElfFile.Packs (file : ElfFile) : Prop where
  readable : file.readable = true
  count : file.sections.length < shnLoreserve
  names : file.shstrndx < file.sections.length
  tables : ∀ elfSection ∈ file.sections,
    SectionPackable file.sections elfSection

theorem ElfFile.Packs.isReadable (hpacks : file.Packs) : file.Readable := by
  refine ⟨hpacks.readable, fun elfSection hsection htable hnone => ?_⟩
  obtain ⟨symbolTable, hsymbols, -⟩ := hpacks.tables elfSection hsection htable
  rw [hnone] at hsymbols
  cases hsymbols

theorem mem_valued {one : ℕ × ElfSymbol} :
    one ∈ file.valued ↔ ∃ elfSection ∈ file.sections,
      elfSection.isSymbolTable = true ∧
        one.2 ∈ elfSection.symbols.getD [] ∧ one.2.st_value ≠ 0 ∧
        elfSection.sh_link.toNat = one.1 := by
  rw [ElfFile.valued, mem_flatMap]
  refine exists_congr fun elfSection => and_congr_right fun _ => ?_
  rw [ElfSection.valued]
  by_cases htable : elfSection.isSymbolTable = true
  · rw [if_pos htable, mem_map]
    constructor
    · rintro ⟨symbol, hsymbol, rfl⟩
      obtain ⟨hmem, hvalue⟩ := mem_filter.mp hsymbol
      exact ⟨htable, hmem, of_decide_eq_true hvalue, rfl⟩
    · rintro ⟨-, hmem, hvalue, hlink⟩
      refine ⟨one.2, mem_filter.mpr ⟨hmem, decide_eq_true hvalue⟩, ?_⟩
      rw [hlink]
  · simp [htable]

theorem ElfFile.Packs.valued_ok (hpacks : file.Packs)
    (hsized : file.Sized zlib) : ∀ one ∈ file.valued,
      HasName file.sections one.1 one.2
          (nameOf (stringTable file.sections one.1) one.2) ∧
        (valuedBytes file.sections one).length ≤ tempbufsize := by
  intro one hone
  obtain ⟨elfSection, hsection, htable, hmem, hvalue, hlink⟩ :=
    mem_valued.mp hone
  obtain ⟨symbolTable, hsymbols, -, hall⟩ :=
    hpacks.tables elfSection hsection htable
  rw [hsymbols, Option.getD_some] at hmem
  rw [scannedSymbols_of_lt (hsized.tables elfSection hsection symbolTable
    hsymbols), hlink] at hall
  obtain ⟨hname, hlength⟩ := hall one.2 hmem hvalue
  exact ⟨hasName_iff.mpr hname, hlength⟩

theorem take_e_shnum (hcount : file.sections.length < shnLoreserve) :
    file.sections.take file.e_shnum = file.sections := by
  rw [ElfFile.e_shnum, if_pos hcount, take_length]

theorem elfSymbols_ok (hpacks : file.Packs) (hsized : file.Sized zlib) :
    ∃ finished : Packing zlib,
      elfSymbols zlib file = .ok (outputBuffer file finished) ∧
        zlib.inflate finished.output = some file.bytes ∧
        finished.totalIn = file.bytes.length ∧
        12 + finished.output.length < 2 ^ 30 ∧
        file.bytes.length < 2 ^ 32 := by
  have hnames : file.Named := fun one hone =>
    (hpacks.valued_ok hsized one hone).1
  obtain ⟨hcounted, hbound⟩ := hsized.packed _
    (lists_iff.mpr (Or.inl ⟨hpacks.isReadable, hnames, rfl⟩))
  rw [entries_sum] at hcounted hbound
  have hbytes := sectionBytes_eq hsized
  have hindex : file.e_shstrndx < file.sections.length := by
    have hcount := hpacks.count
    have hnames := hpacks.names
    rw [ElfFile.e_shstrndx, if_pos (by omega)]
    exact hnames
  obtain ⟨packed, hpack, ⟨taken, hpacked, htaken⟩, hlarge⟩ :=
    packSections_holds hpacks.tables (@holds_start zlib)
      (by rw [hbytes, nil_append]; exact hbound)
  rw [nil_append, hbytes] at htaken
  have hturns : 2 ^ 32 ≤ packed.maxoutputsize * 2 ^ maxTurns := by
    rw [tempbufsize] at hlarge
    rw [maxTurns]
    omega
  have hleft : 12 + zlib.deflateBound
      (taken.length + packed.tempbuffer.length) < 2 ^ 30 := by
    rw [← length_append, htaken]
    exact hbound
  obtain ⟨finished, hfinish, hinflate, htotal, hlength⟩ :=
    finishLoop_spec hpacked (Or.inl rfl) hleft hturns
  rw [htaken] at hinflate
  rw [← length_append, htaken] at htotal
  refine ⟨finished, ?_, hinflate, htotal, hlength, by omega⟩
  rw [elfSymbols, if_pos hpacks.readable]
  dsimp only
  rw [take_e_shnum hpacks.count, if_pos hindex, hpack]
  change (finishLoop maxTurns packed.tempbuffer packed >>= fun finished =>
    pure (outputBuffer file finished)) = _
  rw [hfinish]
  rfl

theorem packs_of_ok {output : List UInt8}
    (hok : elfSymbols zlib file = .ok output) : file.Packs := by
  rw [elfSymbols] at hok
  split at hok
  · rename_i hreadable
    dsimp only at hok
    split at hok
    · rename_i hindex
      have hcount : file.sections.length < shnLoreserve := by
        by_contra hmany
        rw [ElfFile.e_shnum, if_neg hmany, take_zero] at hindex
        exact Nat.not_lt_zero _ hindex
      rw [take_e_shnum hcount] at hindex hok
      obtain ⟨packing, hpack, -⟩ := bind_eq_ok.mp hok
      refine ⟨hreadable, hcount, ?_, sectionsPackable_of_ok hpack⟩
      rw [ElfFile.e_shstrndx] at hindex
      split at hindex
      · exact hindex
      · rw [shnLoreserve] at hcount
        have hxindex : shnXindex.toNat = 65535 := rfl
        omega
    · cases hok
  · cases hok

end

section

variable {zlib : Zlib} {files : List UInt8 → SymbolFile}
  {modulepath : List UInt8}

def outputFor (zlib : Zlib) (files : List UInt8 → SymbolFile)
    (cpath : List UInt8) : Except String (Option (List UInt8)) :=
  if devPrefix.isPrefixOf cpath then .ok none
  else getSymbolListFromFile zlib (files cpath)

def sentReply : Option (List UInt8) → List UInt8
  | none => writeQWord 0
  | some output =>
    output.take (UInt32.ofNat (leValue ((output.drop 4).take 4))).toNat

theorem dispatch_eq (hne : modulepath ≠ [])
    (hlength : modulepath.length < 2 ^ 32) (requests : List UInt8) :
    dispatchSymbolList zlib files (symbolListRequest modulepath ++ requests) =
      (outputFor zlib files (modulepath.takeWhile (· ≠ 0))).map
        fun output => (sentReply output, requests) := by
  have hsize : (UInt32.ofNat modulepath.length).toNat = modulepath.length := by
    rw [UInt32.toNat_ofNat', Nat.mod_eq_of_lt hlength]
  have hzero : UInt32.ofNat modulepath.length ≠ 0 := by
    intro heq
    rw [heq] at hsize
    exact hne (eq_nil_of_length_eq_zero hsize.symm)
  have hread := reads_readBuffer modulepath
  rw [← hsize] at hread
  rw [symbolListRequest, append_assoc, dispatchSymbolList,
    (reads_readDWord _).bind_run, if_neg hzero, hread.bind_run, outputFor]
  split
  · rfl
  · cases getSymbolListFromFile zlib
      (files (modulepath.takeWhile fun x => decide (x ≠ 0))) with
    | error message => rfl
    | ok output => cases output <;> rfl

theorem dispatch_nil (requests : List UInt8) :
    dispatchSymbolList zlib files (symbolListRequest [] ++ requests) =
      .error "connection closed" := by
  rw [symbolListRequest, append_nil, dispatchSymbolList,
    (reads_readDWord _).bind_run]
  rfl

theorem sentReply_outputBuffer {file : ElfFile} {finished : Packing zlib}
    (hlength : 12 + finished.output.length < 2 ^ 30) :
    sentReply (some (outputBuffer file finished)) =
      outputBuffer file finished := by
  have hsize : (UInt32.ofNat (finished.output.length + 12)).toNat =
      finished.output.length + 12 := by
    rw [UInt32.toNat_ofNat', Nat.mod_eq_of_lt (by omega)]
  have hfield : ((outputBuffer file finished).drop 4).take 4 =
      writeDWord (UInt32.ofNat (finished.output.length + 12)) := by
    rw [outputBuffer, drop_left' (writeDWord_length _),
      take_left' (writeDWord_length _)]
  rw [sentReply, hfield, ofNat_leValue_writeDWord, hsize]
  apply take_of_length_le
  simp only [outputBuffer, length_append, writeDWord_length]
  omega

theorem enumSymbols_nothing (callback : Bool → SymbolEntry → Bool)
    (replies : List UInt8) :
    enumSymbolsFromFile zlib callback (writeQWord 0 ++ replies) =
      .ok ([], replies) := by
  have hzeros : writeQWord 0 = writeDWord 0 ++ writeDWord 0 := by decide
  rw [hzeros, append_assoc, enumSymbolsFromFile,
    (reads_readDWord 0).bind_run, (reads_readDWord 0).bind_run]
  rfl

theorem enumSymbols_output {file : ElfFile} {finished : Packing zlib}
    {bytes : List UInt8} (hinflate : zlib.inflate finished.output = some bytes)
    (htotal : finished.totalIn = bytes.length)
    (hlength : 12 + finished.output.length < 2 ^ 30)
    (hbytes : bytes.length < 2 ^ 32)
    (callback : Bool → SymbolEntry → Bool) (replies : List UInt8) :
    enumSymbolsFromFile zlib callback (outputBuffer file finished ++ replies) =
      (parseSymbols (callback (file.e_type = etExec)) bytes.length bytes).map
        fun entries => (entries, replies) := by
  have hsize : (UInt32.ofNat (finished.output.length + 12)).toNat =
      finished.output.length + 12 := by
    rw [UInt32.toNat_ofNat', Nat.mod_eq_of_lt (by omega)]
  have hzero : UInt32.ofNat (finished.output.length + 12) ≠ 0 := by
    intro heq
    rw [heq] at hsize
    have hnone : (0 : UInt32).toNat = 0 := rfl
    omega
  have htotalNat : (UInt32.ofNat finished.totalIn).toNat = bytes.length := by
    rw [UInt32.toNat_ofNat', htotal, Nat.mod_eq_of_lt hbytes]
  have hread := reads_readBuffer finished.output
  have hcount : (UInt32.ofNat (finished.output.length + 12)).toNat - 12 =
      finished.output.length := by
    omega
  have hisexe : decide ((if file.e_type = etExec then (1 : UInt32) else 0) ≠ 0)
      = decide (file.e_type = etExec) := by
    split <;> rename_i hexec <;> simp [hexec]
  rw [← hcount] at hread
  rw [outputBuffer, append_assoc, append_assoc, append_assoc,
    enumSymbolsFromFile, (reads_readDWord _).bind_run,
    (reads_readDWord _).bind_run, if_neg hzero, (reads_readDWord _).bind_run,
    hread.bind_run, hinflate]
  dsimp only
  rw [htotalNat, if_pos le_rfl, take_length, hisexe]
  cases parseSymbols (callback (file.e_type = etExec)) bytes.length bytes with
  | error message => rfl
  | ok entries => rfl

end

/-! ## Parsing -/

section

variable {sections : List ElfSection}

/-- The name is cut to the length that fits a byte, and the rest of it is left
on the stream. -/
theorem readSymbolInfo_entry (symbol : ElfSymbol) (name unread : List UInt8) :
    readSymbolInfo (symbolEntry symbol name ++ unread) =
      .ok ({ name := name.take (name.length % 256)
             address := symbol.st_value
             size := symbol.st_size.toUInt32.toInt32.toInt },
        name.drop (name.length % 256) ++ unread) := by
  have hlength : (UInt8.ofNat name.length).toNat = name.length % 256 :=
    UInt8.toNat_ofNat'
  have hcut : (name.take (name.length % 256)).length =
      (UInt8.ofNat name.length).toNat := by
    rw [hlength, length_take, min_eq_left (Nat.mod_le _ _)]
  have hread := reads_readBuffer (name.take (name.length % 256))
  rw [hcut] at hread
  have hname : name ++ unread = name.take (name.length % 256) ++
      (name.drop (name.length % 256) ++ unread) := by
    rw [← append_assoc, take_append_drop]
  rw [symbolEntry, append_assoc, append_assoc, append_assoc,
    append_assoc, hname, readSymbolInfo, (reads_readQWord _).bind_run,
    (reads_readDWord _).bind_run, (reads_readDWord _).bind_run,
    (reads_readByte _).bind_run, hread.bind_run]
  rfl

theorem toInt_size_iff (size : UInt64) :
    size.toUInt32.toInt32.toInt = size.toNat ↔ size.toNat < 2 ^ 31 := by
  have hint : size.toUInt32.toInt32.toInt =
      (size.toUInt32.toNat : ℤ).bmod (2 ^ 32) :=
    BitVec.toInt_eq_toNat_bmod _
  have hnat : size.toUInt32.toNat = size.toNat % 2 ^ 32 :=
    UInt64.toNat_toUInt32 size
  have hlt := Nat.mod_lt size.toNat (by decide : 0 < 2 ^ 32)
  rw [hint, hnat, Int.bmod_def]
  split <;> omega

def FitsEntry (sections : List ElfSection) (valued : ℕ × ElfSymbol) : Prop :=
  (nameOf (stringTable sections valued.1) valued.2).length ≤ 255 ∧
    valued.2.st_size.toNat < 2 ^ 31

theorem readSymbolInfo_valued {one : ℕ × ElfSymbol}
    (hfits : FitsEntry sections one) (unread : List UInt8) :
    readSymbolInfo (valuedBytes sections one ++ unread) =
      .ok (entryOf sections one, unread) := by
  have hmod := Nat.mod_eq_of_lt (Nat.lt_succ_of_le hfits.1)
  rw [valuedBytes, readSymbolInfo_entry, hmod, take_length,
    drop_length, (toInt_size_iff _).mpr hfits.2]
  rfl

theorem fitsEntry_of_read {one : ℕ × ElfSymbol} {unread rest : List UInt8}
    (hread : readSymbolInfo (valuedBytes sections one ++ unread) =
      .ok (entryOf sections one, rest)) : FitsEntry sections one := by
  rw [valuedBytes, readSymbolInfo_entry] at hread
  have hentry := (Prod.mk.inj (Except.ok.inj hread)).1
  have hname := congrArg (fun entry => entry.name.length) hentry
  have hsize := congrArg SymbolEntry.size hentry
  dsimp only [entryOf] at hname hsize
  rw [length_take] at hname
  have hlt := Nat.mod_lt
    (nameOf (stringTable sections one.1) one.2).length (by decide : 0 < 256)
  refine ⟨?_, (toInt_size_iff _).mp hsize⟩
  omega

theorem valuedBytes_ne_nil (one : ℕ × ElfSymbol) (more : List UInt8) :
    valuedBytes sections one ++ more ≠ [] := by
  intro hnil
  have hlength := congrArg List.length hnil
  rw [length_append, valuedBytes, symbolEntry_length, length_nil] at hlength
  omega

theorem parseSymbols_good {valued : List (ℕ × ElfSymbol)}
    (hfits : ∀ one ∈ valued, FitsEntry sections one)
    (callback : SymbolEntry → Bool) {turns : ℕ}
    (hturns : valued.length ≤ turns) :
    parseSymbols callback turns (valued.flatMap (valuedBytes sections)) =
      .ok (readUntil callback (valued.map (entryOf sections))) := by
  induction valued generalizing turns with
  | nil => cases turns <;> rfl
  | cons one valued ih =>
    obtain ⟨hfirst, hrest⟩ := forall_mem_cons.mp hfits
    obtain ⟨turns, rfl⟩ : ∃ fewer, turns = fewer + 1 :=
      ⟨turns - 1, by rw [length_cons] at hturns; omega⟩
    have hloop := ih hrest (by rw [length_cons] at hturns; omega :
      valued.length ≤ turns)
    rw [flatMap_cons, parseSymbols, if_neg (valuedBytes_ne_nil _ _),
      readSymbolInfo_valued hfirst, map_cons, readUntil]
    change (if 0 < (entryOf sections one).name.length ∧
        callback (entryOf sections one) = false then
      pure [entryOf sections one] else
        parseSymbols callback turns _ >>= fun rest => _) = _
    split
    · rfl
    · rw [hloop]
      rfl

theorem fitsEntry_of_parse {valued : List (ℕ × ElfSymbol)} {turns : ℕ}
    (hparse : parseSymbols (fun _ => true) turns
      (valued.flatMap (valuedBytes sections)) =
        .ok (valued.map (entryOf sections))) :
    ∀ one ∈ valued, FitsEntry sections one := by
  induction valued generalizing turns with
  | nil => simp
  | cons one valued ih =>
    cases turns with
    | zero => cases hparse
    | succ turns =>
      rw [flatMap_cons, parseSymbols,
        if_neg (valuedBytes_ne_nil _ _), bind_eq_ok] at hparse
      obtain ⟨⟨symbol, unread⟩, hread, hrest⟩ := hparse
      dsimp only at hrest
      rw [if_neg (by simp), bind_eq_ok] at hrest
      obtain ⟨rest, hloop, hresult⟩ := hrest
      have hcons := Except.ok.inj hresult
      rw [map_cons] at hcons
      obtain ⟨hsymbol, hmore⟩ := List.cons.inj hcons
      rw [hsymbol] at hread
      have hfirst := fitsEntry_of_read hread
      rw [readSymbolInfo_valued hfirst] at hread
      have hunread := (Prod.mk.inj (Except.ok.inj hread)).2
      rw [← hunread, hmore] at hloop
      exact forall_mem_cons.mpr ⟨hfirst, ih hloop⟩

theorem readUntil_true (entries : List SymbolEntry) :
    readUntil (fun _ => true) entries = entries := by
  induction entries with
  | nil => rfl
  | cons entry entries ih => simp [readUntil, ih]

end

/-! ## The round trip -/

/-- The file can be read, has section headers whose number fits the header, and
its symbols have names and sizes that fit an entry. -/
structure ElfFile.Fits (file : ElfFile) : Prop where
  readable : file.Readable
  count : file.sections.length < shnLoreserve
  sectionNames : file.shstrndx < file.sections.length
  links : ∀ elfSection ∈ file.sections, elfSection.isSymbolTable = true →
    elfSection.sh_link.toNat < file.sections.length
  names : ∀ one ∈ file.valued, ∃ name,
    HasName file.sections one.1 one.2 name ∧ name.length ≤ 255
  sizes : ∀ one ∈ file.valued, one.2.st_size.toNat < 2 ^ 31

section

variable {file : ElfFile}

theorem ElfFile.Fits.entries (hfits : file.Fits) :
    file.Named ∧ ∀ one ∈ file.valued, FitsEntry file.sections one := by
  have hboth : ∀ one ∈ file.valued, HasName file.sections one.1 one.2
      (nameOf (stringTable file.sections one.1) one.2) ∧
        FitsEntry file.sections one := by
    intro one hone
    obtain ⟨name, hname, hlength⟩ := hfits.names one hone
    have heq := nameOf_eq (hasName_iff.mp hname)
    rw [FitsEntry, heq]
    exact ⟨hname, hlength, hfits.sizes one hone⟩
  exact ⟨fun one hone => (hboth one hone).1,
    fun one hone => (hboth one hone).2⟩

theorem ElfFile.Fits.packs (hfits : file.Fits) : file.Packs where
  readable := hfits.readable.1
  count := hfits.count
  names := hfits.sectionNames
  tables := by
    intro elfSection hsection htable
    cases hsymbols : elfSection.symbols with
    | none => exact absurd hsymbols (hfits.readable.2 _ hsection htable)
    | some symbolTable =>
      refine ⟨symbolTable, rfl, hfits.links _ hsection htable, ?_⟩
      intro symbol hsymbol hvalue
      have hone : (elfSection.sh_link.toNat, symbol) ∈ file.valued := by
        refine mem_valued.mpr ⟨elfSection, hsection, htable, ?_, hvalue, rfl⟩
        rw [hsymbols]
        exact mem_of_mem_take hsymbol
      obtain ⟨name, hname, hlength⟩ := hfits.names _ hone
      have hok := hasName_iff.mp hname
      rw [nameOf_eq hok, symbolEntry_length, tempbufsize]
      exact ⟨hok, by omega⟩

theorem getSymbolListFromFile_elf {zlib : Zlib} :
    getSymbolListFromFile zlib (.elf file) =
      (elfSymbols zlib file).map some := by
  rw [getSymbolListFromFile, ELF32, ELF64, ite_self]
  cases elfSymbols zlib file <;> rfl

theorem valued_length_le (file : ElfFile) :
    file.valued.length ≤ file.bytes.length := by
  rw [ElfFile.bytes]
  induction file.valued with
  | nil => exact le_rfl
  | cons one valued ih =>
    rw [flatMap_cons, length_append, length_cons,
      valuedBytes, symbolEntry_length]
    omega

theorem fits_of_parse {zlib : Zlib} (hpacks : file.Packs)
    (hsized : file.Sized zlib)
    (hparse : parseSymbols (fun _ => true) file.bytes.length file.bytes =
      .ok (file.valued.map (entryOf file.sections))) : file.Fits where
  readable := hpacks.isReadable
  count := hpacks.count
  sectionNames := hpacks.names
  links := by
    intro elfSection hsection htable
    obtain ⟨-, -, hlink, -⟩ := hpacks.tables elfSection hsection htable
    exact hlink
  names := fun one hone => ⟨_, (hpacks.valued_ok hsized one hone).1,
    (fitsEntry_of_parse hparse one hone).1⟩
  sizes := fun one hone => (fitsEntry_of_parse hparse one hone).2

end

/-- Sizes that the fields of the messages and the counters can hold. -/
structure Sized (zlib : Zlib) (files : List UInt8 → SymbolFile)
    (modulepath : List UInt8) : Prop where
  path : modulepath.length < 2 ^ 31
  file : ∀ file, files (modulepath.takeWhile (· ≠ 0)) = .elf file →
    file.Sized zlib

def isDeviceFile (modulepath : List UInt8) : Bool :=
  devPrefix.isPrefixOf (modulepath.takeWhile (· ≠ 0))

section

variable {zlib : Zlib} {files : List UInt8 → SymbolFile}
  {modulepath : List UInt8}

theorem roundTrip_nothing (hne : modulepath ≠ [])
    (hlength : modulepath.length < 2 ^ 31)
    (hlisted : Listed files modulepath [])
    (houtput : outputFor zlib files (modulepath.takeWhile (· ≠ 0)) =
      .ok none) : RoundTrip zlib files modulepath := by
  refine ⟨writeQWord 0, [], hlisted, fun requests => ?_, fun callback =>
    ⟨true, fun replies => ?_⟩⟩
  · rw [dispatch_eq hne (by omega), houtput]
    rfl
  · rw [enumSymbols_nothing]
    rfl

variable {file : ElfFile}

theorem listed_elf {entries : List SymbolEntry}
    (hdevice : ¬ isDeviceFile modulepath = true)
    (hfile : files (modulepath.takeWhile (· ≠ 0)) = .elf file) :
    Listed files modulepath entries ↔ file.Lists entries := by
  rw [isDeviceFile] at hdevice
  rw [Listed, if_neg hdevice, hfile]

theorem outputFor_elf (hdevice : ¬ isDeviceFile modulepath = true)
    (hfile : files (modulepath.takeWhile (· ≠ 0)) = .elf file) :
    outputFor zlib files (modulepath.takeWhile (· ≠ 0)) =
      (elfSymbols zlib file).map some := by
  rw [isDeviceFile] at hdevice
  rw [outputFor, if_neg hdevice, hfile, getSymbolListFromFile_elf]

theorem roundTrip_elf (hne : modulepath ≠ [])
    (hlength : modulepath.length < 2 ^ 31)
    (hdevice : ¬ isDeviceFile modulepath = true)
    (hfile : files (modulepath.takeWhile (· ≠ 0)) = .elf file)
    (hsized : file.Sized zlib) (hfits : file.Fits) :
    RoundTrip zlib files modulepath := by
  obtain ⟨hnamed, hentries⟩ := hfits.entries
  obtain ⟨finished, hok, hinflate, htotal, hsmall, hbytes⟩ :=
    elfSymbols_ok hfits.packs hsized
  refine ⟨outputBuffer file finished,
    file.valued.map (entryOf file.sections), ?_, fun requests => ?_,
    fun callback => ⟨file.e_type = etExec, fun replies => ?_⟩⟩
  · rw [listed_elf hdevice hfile, lists_iff]
    exact Or.inl ⟨hfits.readable, hnamed, rfl⟩
  · rw [dispatch_eq hne (by omega), outputFor_elf hdevice hfile, hok]
    change Except.ok (sentReply (some (outputBuffer file finished)), requests)
      = _
    rw [sentReply_outputBuffer hsmall]
  · have hparse : parseSymbols (callback (file.e_type = etExec))
        file.bytes.length file.bytes = _ :=
      parseSymbols_good hentries _ (valued_length_le file)
    rw [enumSymbols_output hinflate htotal hsmall hbytes, hparse]
    rfl

theorem RoundTrip.path_ne (hround : RoundTrip zlib files modulepath) :
    modulepath ≠ [] := by
  rintro rfl
  obtain ⟨reply, -, -, hserve, -⟩ := hround
  have hnil := hserve []
  rw [dispatch_nil] at hnil
  cases hnil

theorem RoundTrip.fits (hround : RoundTrip zlib files modulepath)
    (hlength : modulepath.length < 2 ^ 31)
    (hdevice : ¬ isDeviceFile modulepath = true)
    (hfile : files (modulepath.takeWhile (· ≠ 0)) = .elf file)
    (hsized : file.Sized zlib) : file.Fits := by
  have hne := hround.path_ne
  obtain ⟨reply, entries, hlisted, hserve, hread⟩ := hround
  have hdispatch := hserve []
  rw [dispatch_eq hne (by omega), outputFor_elf hdevice hfile] at hdispatch
  cases houtput : elfSymbols zlib file with
  | error message =>
    rw [houtput] at hdispatch
    cases hdispatch
  | ok output =>
    have hpacks := packs_of_ok houtput
    obtain ⟨finished, hok, hinflate, htotal, hsmall, hbytes⟩ :=
      elfSymbols_ok hpacks hsized
    rw [hok] at hdispatch
    have hreply := (Prod.mk.inj (Except.ok.inj hdispatch)).1
    rw [sentReply_outputBuffer hsmall] at hreply
    rw [listed_elf hdevice hfile, lists_iff] at hlisted
    rcases hlisted with ⟨-, -, hentries⟩ | ⟨hunreadable, -⟩
    · obtain ⟨isexe, hloop⟩ := hread fun _ _ => true
      have hparse := hloop []
      rw [← hreply, enumSymbols_output hinflate htotal hsmall hbytes,
        readUntil_true, hentries] at hparse
      refine fits_of_parse hpacks hsized ?_
      cases hresult : parseSymbols (fun _ => true) file.bytes.length
        file.bytes with
      | error message =>
        rw [hresult] at hparse
        cases hparse
      | ok found =>
        rw [hresult] at hparse
        have hfound := (Prod.mk.inj (Except.ok.inj hparse)).1
        rw [hfound]
    · exact absurd hpacks.isReadable hunreadable

/-- The symbol list goes over the network and back exactly when the path is not
empty and the file, unless it is a device, fits the format. -/
theorem roundTrip_iff (hsized : Sized zlib files modulepath) :
    RoundTrip zlib files modulepath ↔
      modulepath ≠ [] ∧
        (¬ isDeviceFile modulepath = true → ∀ file,
          files (modulepath.takeWhile (· ≠ 0)) = .elf file →
            file.Fits) := by
  constructor
  · intro hround
    refine ⟨hround.path_ne, fun hdevice file hfile => ?_⟩
    exact hround.fits hsized.path hdevice hfile (hsized.file file hfile)
  · rintro ⟨hne, hfits⟩
    by_cases hdevice : isDeviceFile modulepath = true
    · rw [isDeviceFile] at hdevice
      exact roundTrip_nothing hne hsized.path
        (by rw [Listed, if_pos hdevice]) (by rw [outputFor, if_pos hdevice])
    · cases hfile : files (modulepath.takeWhile (· ≠ 0)) with
      | missing =>
        rw [isDeviceFile] at hdevice
        exact roundTrip_nothing hne hsized.path
          (by rw [Listed, if_neg hdevice, hfile])
          (by rw [outputFor, if_neg hdevice, hfile]; rfl)
      | notElf =>
        rw [isDeviceFile] at hdevice
        exact roundTrip_nothing hne hsized.path
          (by rw [Listed, if_neg hdevice, hfile])
          (by rw [outputFor, if_neg hdevice, hfile]; rfl)
      | elf file =>
        exact roundTrip_elf hne hsized.path hdevice hfile
          (hsized.file file hfile) (hfits hdevice file hfile)

end

/-! ## A list of one symbol -/

def oneSymbolBlock : List UInt8 :=
  [0, 16, 0, 0, 0, 0, 0, 0, 16, 0, 0, 0, 18, 0, 0, 0, 1, 0x66]

def oneSymbolDeflated : List UInt8 :=
  [120, 218, 99, 16, 96, 0, 3, 16, 37, 4, 196, 140, 105, 0, 2, 150, 0, 154]

/-- Knows one compressed block; other blocks are stored behind a zero. -/
def sampleZlib : Zlib :=
  blockZlib
    (fun block =>
      if block = oneSymbolBlock then oneSymbolDeflated else 0 :: block)
    (fun bytes =>
      if bytes = oneSymbolDeflated then some oneSymbolBlock else bytes.tail)
    (fun length => length + 64)
    (by
      intro block
      by_cases hblock : block = oneSymbolBlock
      · rw [if_pos hblock, if_pos rfl, hblock]
      · rw [if_neg hblock, if_neg]
        · rfl
        · intro heq
          exact absurd (List.cons.inj heq).1 (by decide))
    (by
      intro block
      split
      · exact Nat.le_trans (by decide) (Nat.le_add_left 64 _)
      · rw [length_cons]
        omega)
    (fun _ _ hle => Nat.add_le_add_right hle 64)

def oneSymbolFile (name : List UInt8) : ElfFile where
  class32 := false
  e_type := 3
  sections :=
    [{ sh_type := shtSymtab
       sh_link := 1
       symbols := some [{ st_name := 0, st_value := 0x1000, st_size := 16,
                          st_info := 0x12 }]
       strings := none },
     { sh_type := shtStrtab
       sh_link := 0
       symbols := none
       strings := some (name ++ [0]) }]
  shstrndx := 1
  readable := true

def oneSymbol : ElfSymbol where
  st_name := 0
  st_value := 0x1000
  st_size := 16
  st_info := 0x12

theorem oneSymbolFile_hasName (hname : 0 ∉ name) :
    HasName (oneSymbolFile name).sections 1 oneSymbol name :=
  ⟨_, [], [], rfl, rfl, rfl, rfl, hname⟩

theorem oneSymbolFile_valued (name : List UInt8) :
    (oneSymbolFile name).valued = [(1, oneSymbol)] := rfl

theorem oneSymbolFile_sized (hname : 0 ∉ name) (hlength : name.length < 1000) :
    (oneSymbolFile name).Sized sampleZlib where
  tables := by
    intro elfSection hsection symbolTable hsymbols
    simp only [oneSymbolFile, mem_cons, not_mem_nil, or_false] at hsection
    rcases hsection with rfl | rfl
    · cases hsymbols
      decide
    · cases hsymbols
  packed := by
    intro entries hlists
    have hbound : ∀ n, sampleZlib.deflateBound n = n + 64 := fun _ => rfl
    rw [hbound]
    rcases lists_iff.mp hlists with ⟨-, -, rfl⟩ | ⟨-, rfl⟩
    · have hnameOf := nameOf_eq (hasName_iff.mp (oneSymbolFile_hasName hname))
      rw [oneSymbolFile_valued]
      simp only [map_cons, map_nil, sum_cons, sum_nil, entryOf]
      rw [hnameOf]
      omega
    · decide

theorem oneSymbolFile_fits : (oneSymbolFile [0x66]).Fits where
  readable := by
    refine ⟨rfl, fun elfSection hsection htable hnone => ?_⟩
    simp only [oneSymbolFile, mem_cons, not_mem_nil, or_false] at hsection
    rcases hsection with rfl | rfl
    · cases hnone
    · exact absurd htable (by decide)
  count := by decide
  sectionNames := by decide
  links := by
    intro elfSection hsection htable
    simp only [oneSymbolFile, mem_cons, not_mem_nil, or_false] at hsection
    rcases hsection with rfl | rfl
    · decide
    · exact absurd htable (by decide)
  names := by
    intro one hone
    rw [oneSymbolFile_valued, mem_singleton] at hone
    subst hone
    exact ⟨[0x66], oneSymbolFile_hasName (by decide), by decide⟩
  sizes := by
    intro one hone
    rw [oneSymbolFile_valued, mem_singleton] at hone
    subst hone
    decide

theorem roundTrip_iff_oneSymbol :
    RoundTrip sampleZlib (fun _ => .elf (oneSymbolFile [0x66])) [0x2f] ∧
      Sized sampleZlib (fun _ => .elf (oneSymbolFile [0x66])) [0x2f] := by
  have hsized :
      Sized sampleZlib (fun _ => .elf (oneSymbolFile [0x66])) [0x2f] := by
    refine ⟨by decide, fun file hfile => ?_⟩
    cases hfile
    exact oneSymbolFile_sized (by decide) (by decide)
  refine ⟨(roundTrip_iff hsized).mpr ⟨by decide, fun _ file hfile => ?_⟩,
    hsized⟩
  cases hfile
  exact oneSymbolFile_fits

theorem long_name_is_not_read_back :
    ¬ RoundTrip sampleZlib
      (fun _ => .elf (oneSymbolFile (List.replicate 256 0x61))) [0x2f] := by
  intro hround
  have hname : (0 : UInt8) ∉ List.replicate 256 0x61 := fun hmem =>
    absurd (eq_of_mem_replicate hmem) (by decide)
  have hlong := length_replicate (n := 256) (a := (0x61 : UInt8))
  have hfits := hround.fits (by decide) (by decide) rfl
    (oneSymbolFile_sized hname (by rw [hlong]; decide))
  obtain ⟨name, hother, hlength⟩ := hfits.names (1, oneSymbol) (by
    rw [oneSymbolFile_valued]
    exact mem_singleton_self _)
  have hsame := (hasName_iff.mp hother).symm.trans
    (hasName_iff.mp (oneSymbolFile_hasName hname))
  rw [Except.ok.inj hsame, hlong] at hlength
  exact absurd hlength (by decide)

end CheatEngine.CeserverSymbols
