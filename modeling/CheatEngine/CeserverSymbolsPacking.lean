import CheatEngine.CeserverSymbols

/-!
# Packing the symbols of a file

The output buffer grows as the compressor fills it, and the temporary buffer is
compressed before an entry that would fill it.  While the compressed list stays
below 1 GB no `int` overflows, and what was packed is what the stream has taken
and the buffer still holds.
-/

namespace CheatEngine.CeserverSymbols

open List ByteStream Deflate

/-! ## Compressing -/

section

variable {zlib : Zlib}

/-- The stream of a packing has taken the given bytes, and what is left when it
is being finished. -/
structure Packed (packing : Packing zlib) (taken : List UInt8)
    (left : Option (List UInt8)) : Prop where
  reaches : Reaches zlib.toCodec packing.stream taken packing.output left
  totalIn : packing.totalIn = taken.length
  room : 0 < packing.availOut
  size : packing.availOut + packing.output.length + 12 =
    packing.maxoutputsize
  isInt : packing.maxoutputsize < 2 ^ 31

theorem packed_start : Packed (startPacking zlib) [] none where
  reaches := Reaches.init
  totalIn := rfl
  room := show 0 < tempbufsize - 12 by decide
  size := show tempbufsize - 12 + 0 + 12 = tempbufsize by decide
  isInt := show tempbufsize < 2 ^ 31 by decide

variable {packing : Packing zlib} {taken availIn : List UInt8} {turns : ℕ}
  {bytes : List UInt8} {table : Option (List UInt8)} {symbol : ElfSymbol}
  {packed : Packing zlib} {sections : List ElfSection}

/-- A call of `deflate` and the growth after it, while the compressed list
stays below the limit. -/
theorem Packed.grow {left after : Option (List UInt8)}
    {call : Call zlib.Stream} (hpacked : Packed packing taken left)
    (hreaches : Reaches zlib.toCodec call.stream
      (taken ++ availIn.take call.consumed)
      (packing.output ++ call.produced) after)
    (hconsumed : call.consumed ≤ availIn.length)
    (hproduced : call.produced.length ≤ packing.availOut)
    (hbound : 12 + zlib.deflateBound (taken.length + availIn.length) < 2 ^ 30) :
    ∃ grown, (packing.afterCall call).grow = .ok grown ∧
      Packed grown (taken ++ availIn.take call.consumed) after ∧
      grown.tempbuffer = packing.tempbuffer ∧
      packing.maxoutputsize ≤ grown.maxoutputsize ∧
      (call.produced.length = packing.availOut →
        grown.maxoutputsize = packing.maxoutputsize * 2) := by
  have hroom := hpacked.room
  have hsize := hpacked.size
  have hisInt := hpacked.isInt
  have htaken : (taken ++ availIn.take call.consumed).length =
      taken.length + call.consumed := by
    rw [length_append, length_take, min_eq_left hconsumed]
  have hlength : (packing.output ++ call.produced).length =
      packing.output.length + call.produced.length := length_append
  have hbelow : 12 + (packing.output ++ call.produced).length < 2 ^ 30 := by
    have hle := zlib.length_le_bound hreaches
    rw [htaken] at hle
    have hmono := zlib.bound_mono (by omega :
      taken.length + call.consumed ≤ taken.length + availIn.length)
    omega
  have htotal : packing.totalIn + call.consumed =
      (taken ++ availIn.take call.consumed).length := by
    rw [htaken, hpacked.totalIn]
  rw [Packing.grow, Packing.afterCall]
  dsimp only
  by_cases hfull : packing.availOut - call.produced.length = 0
  · rw [if_pos hfull, if_pos (by omega)]
    refine ⟨_, rfl, ⟨hreaches, htotal, ?_, ?_, ?_⟩, rfl, ?_, fun _ => rfl⟩
    all_goals dsimp only; omega
  · rw [if_neg hfull]
    refine ⟨_, rfl, ⟨hreaches, htotal, ?_, ?_, hisInt⟩, rfl, le_rfl, ?_⟩
    all_goals dsimp only; omega

theorem consumed_drop_length {consumed : ℕ}
    (hconsumed : consumed ≤ availIn.length) :
    (taken ++ availIn.take consumed).length +
      (availIn.drop consumed).length = taken.length + availIn.length := by
  rw [length_append, length_take, length_drop, min_eq_left hconsumed]
  omega

theorem turns_pos {size : ℕ} (hsize : size < 2 ^ 31)
    (hturns : 2 ^ 32 ≤ size * 2 ^ (turns + 1)) : 0 < turns := by
  by_contra hzero
  rw [Nat.eq_zero_of_not_pos hzero, zero_add, pow_one] at hturns
  omega

theorem turns_double {size : ℕ} (hturns : 2 ^ 32 ≤ size * 2 ^ (turns + 1)) :
    2 ^ 32 ≤ size * 2 * 2 ^ turns := by
  calc 2 ^ 32 ≤ size * 2 ^ (turns + 1) := hturns
    _ = size * 2 * 2 ^ turns := by ring

theorem compressLoop_spec (hpacked : Packed packing taken none)
    (hbound : 12 + zlib.deflateBound (taken.length + availIn.length) < 2 ^ 30)
    (hone : 0 < turns)
    (hturns : availIn ≠ [] → 2 ^ 32 ≤ packing.maxoutputsize * 2 ^ turns) :
    ∃ packed, compressLoop turns availIn packing = .ok packed ∧
      Packed packed (taken ++ availIn) none ∧
      packing.maxoutputsize ≤ packed.maxoutputsize := by
  induction turns generalizing availIn taken packing with
  | zero => omega
  | succ turns ih =>
    rw [compressLoop]
    by_cases hnil : availIn = []
    · rw [if_pos hnil, hnil, append_nil]
      exact ⟨packing, rfl, hpacked, le_rfl⟩
    · rw [if_neg hnil]
      have hturns := hturns hnil
      have hreaches := hpacked.reaches.flush hnil hpacked.room
      have hconsumed : (zlib.deflate false availIn packing.availOut
          packing.stream).consumed ≤ availIn.length :=
        zlib.consumed_le false hpacked.reaches
      have hproduced : (zlib.deflate false availIn packing.availOut
          packing.stream).produced.length ≤ packing.availOut :=
        zlib.produced_le false hpacked.reaches
      obtain ⟨hstatus, hprogress⟩ :=
        zlib.flush_status hpacked.reaches hnil hpacked.room
      generalize zlib.deflate false availIn packing.availOut packing.stream =
        call at hreaches hconsumed hproduced hstatus hprogress ⊢
      obtain ⟨grown, hgrow, hgrown, -, hlarger, hdouble⟩ :=
        hpacked.grow hreaches hconsumed hproduced hbound
      have hleft : 12 + zlib.deflateBound
          ((taken ++ availIn.take call.consumed).length +
            (availIn.drop call.consumed).length) < 2 ^ 30 := by
        rw [consumed_drop_length hconsumed]
        exact hbound
      have hmore : availIn.drop call.consumed ≠ [] →
          2 ^ 32 ≤ grown.maxoutputsize * 2 ^ turns := by
        intro hmore
        have hnotAll : call.consumed ≠ availIn.length := fun heq =>
          hmore (by rw [heq, drop_length])
        rw [hdouble (hprogress.resolve_left hnotAll)]
        exact turns_double hturns
      obtain ⟨packed, hloop, hresult, hmax⟩ :=
        ih hgrown hleft (turns_pos hpacked.isInt hturns) hmore
      dsimp only
      rw [if_pos hstatus, hgrow]
      rw [append_assoc, take_append_drop] at hresult
      exact ⟨packed, hloop, hresult, hlarger.trans hmax⟩

theorem finishLoop_spec {left : Option (List UInt8)}
    (hpacked : Packed packing taken left)
    (hleft : left = none ∨ left = some availIn)
    (hbound : 12 + zlib.deflateBound (taken.length + availIn.length) < 2 ^ 30)
    (hturns : 2 ^ 32 ≤ packing.maxoutputsize * 2 ^ turns) :
    ∃ finished, finishLoop turns availIn packing = .ok finished ∧
      zlib.inflate finished.output = some (taken ++ availIn) ∧
      finished.totalIn = taken.length + availIn.length ∧
      12 + finished.output.length < 2 ^ 30 := by
  induction turns generalizing availIn taken left packing with
  | zero =>
    have hint := hpacked.isInt
    rw [pow_zero, mul_one] at hturns
    omega
  | succ turns ih =>
    have hreaches := hpacked.reaches.finish hleft hpacked.room
    have hconsumed : (zlib.deflate true availIn packing.availOut
        packing.stream).consumed ≤ availIn.length :=
      zlib.consumed_le true hpacked.reaches
    have hproduced : (zlib.deflate true availIn packing.availOut
        packing.stream).produced.length ≤ packing.availOut :=
      zlib.produced_le true hpacked.reaches
    have hprogress :=
      zlib.finish_status hpacked.reaches hleft hpacked.room
    rw [finishLoop]
    generalize zlib.deflate true availIn packing.availOut packing.stream =
      call at hreaches hconsumed hproduced hprogress ⊢
    rcases hprogress with ⟨hend, hall, hinflate⟩ | ⟨hok, hfull⟩
    · rw [hend]
      refine ⟨_, rfl, hinflate, ?_, ?_⟩
      · rw [← hpacked.totalIn, ← hall]
        rfl
      · have hle := zlib.length_le_bound hreaches
        have htaken : (taken ++ availIn).length =
            taken.length + availIn.length := length_append
        rw [hall, take_length, htaken] at hle
        exact lt_of_le_of_lt (Nat.add_le_add_left hle 12) hbound
    · obtain ⟨grown, hgrow, hgrown, -, -, hdouble⟩ :=
        hpacked.grow hreaches hconsumed hproduced hbound
      have hempty : (packing.afterCall call).availOut = 0 := by
        rw [Packing.afterCall, hfull, Nat.sub_self]
      have hnext : 12 + zlib.deflateBound
          ((taken ++ availIn.take call.consumed).length +
            (availIn.drop call.consumed).length) < 2 ^ 30 := by
        rw [consumed_drop_length hconsumed]
        exact hbound
      have hsize : 2 ^ 32 ≤ grown.maxoutputsize * 2 ^ turns := by
        rw [hdouble hfull]
        exact turns_double hturns
      obtain ⟨finished, hloop, hinflate, htotal, hlength⟩ :=
        ih hgrown (Or.inr rfl) hnext hsize
      rw [hok]
      simp only [hempty, if_true, hgrow]
      rw [append_assoc, take_append_drop] at hinflate
      rw [consumed_drop_length hconsumed] at htotal
      exact ⟨finished, hloop, hinflate, htotal, hlength⟩

/-! ## Packing -/

/-- The bytes that were packed: taken by the stream or in the buffer. -/
structure Holds (packing : Packing zlib) (bytes : List UInt8) : Prop where
  packed : ∃ taken, Packed packing taken none ∧
    taken ++ packing.tempbuffer = bytes
  large : tempbufsize ≤ packing.maxoutputsize

theorem holds_start : Holds (startPacking zlib) [] where
  packed := ⟨[], packed_start, rfl⟩
  large := le_rfl

theorem compressTempbuffer_holds (hholds : Holds packing bytes)
    (hbound : 12 + zlib.deflateBound bytes.length < 2 ^ 30) :
    ∃ packed, compressTempbuffer packing = .ok packed ∧
      Holds packed bytes ∧ packed.tempbuffer = [] := by
  obtain ⟨⟨taken, hpacked, rfl⟩, hlarge⟩ := hholds
  rw [length_append] at hbound
  have hturns : 2 ^ 32 ≤ packing.maxoutputsize * 2 ^ maxTurns := by
    rw [tempbufsize] at hlarge
    rw [maxTurns]
    omega
  obtain ⟨packed, hloop, hresult, hmax⟩ :=
    compressLoop_spec hpacked hbound (by decide : 0 < maxTurns) fun _ => hturns
  rw [compressTempbuffer, hloop]
  refine ⟨_, rfl, ⟨⟨_, ⟨hresult.reaches, hresult.totalIn, hresult.room,
    hresult.size, hresult.isInt⟩, append_nil _⟩, ?_⟩, rfl⟩
  exact hlarge.trans hmax

def nameOf (table : Option (List UInt8)) (symbol : ElfSymbol) : List UInt8 :=
  (symbolName table symbol.st_name).toOption.getD []

def packedBytes (table : Option (List UInt8)) (symbol : ElfSymbol) :
    List UInt8 :=
  if symbol.st_value = 0 then []
  else symbolEntry symbol (nameOf table symbol)

/-- The symbol has no value, or a name with which it fits the buffer. -/
def Packable (table : Option (List UInt8)) (symbol : ElfSymbol) : Prop :=
  symbol.st_value ≠ 0 →
    symbolName table symbol.st_name = .ok (nameOf table symbol) ∧
      (symbolEntry symbol (nameOf table symbol)).length ≤ tempbufsize

theorem nameOf_eq {name : List UInt8}
    (hname : symbolName table symbol.st_name = .ok name) :
    nameOf table symbol = name := by
  rw [nameOf, hname]
  rfl

theorem makeRoom_holds {entry : List UInt8}
    (hlength : entry.length ≤ tempbufsize) (hholds : Holds packing bytes)
    (hbound : 12 + zlib.deflateBound bytes.length < 2 ^ 30) :
    ∃ room, makeRoom entry packing = .ok room ∧ Holds room bytes ∧
      room.tempbuffer.length + entry.length ≤ tempbufsize := by
  rw [makeRoom]
  by_cases hfull : packing.tempbuffer.length + entry.length ≥ tempbufsize
  · obtain ⟨room, hroom, hroomHolds, hempty⟩ :=
      compressTempbuffer_holds hholds hbound
    rw [if_pos hfull, hroom]
    refine ⟨room, rfl, hroomHolds, ?_⟩
    rw [hempty, length_nil, zero_add]
    exact hlength
  · rw [if_neg hfull]
    exact ⟨packing, rfl, hholds, by omega⟩

theorem appendEntry_holds {entry : List UInt8} {room : Packing zlib}
    (hholds : Holds room bytes)
    (hfits : room.tempbuffer.length + entry.length ≤ tempbufsize) :
    ∃ packed, appendEntry entry room = .ok packed ∧
      Holds packed (bytes ++ entry) := by
  obtain ⟨⟨taken, hpacked, rfl⟩, hlarge⟩ := hholds
  rw [appendEntry, if_pos hfits]
  refine ⟨_, rfl, ⟨taken, ⟨hpacked.reaches, hpacked.totalIn, hpacked.room,
    hpacked.size, hpacked.isInt⟩, ?_⟩, hlarge⟩
  rw [append_assoc]

theorem packSymbol_holds (hpackable : Packable table symbol)
    (hholds : Holds packing bytes)
    (hbound : 12 + zlib.deflateBound bytes.length < 2 ^ 30) :
    ∃ packed, packSymbol table symbol packing = .ok packed ∧
      Holds packed (bytes ++ packedBytes table symbol) := by
  rw [packSymbol, packedBytes]
  by_cases hvalue : symbol.st_value = 0
  · rw [if_pos hvalue, if_pos hvalue, append_nil]
    exact ⟨packing, rfl, hholds⟩
  · obtain ⟨hname, hlength⟩ := hpackable hvalue
    obtain ⟨room, hroom, hroomHolds, hfits⟩ :=
      makeRoom_holds hlength hholds hbound
    obtain ⟨packed, happend, hpacked⟩ := appendEntry_holds hroomHolds hfits
    refine ⟨packed, ?_, ?_⟩
    · rw [if_neg hvalue, hname]
      change (makeRoom (symbolEntry symbol (nameOf table symbol)) packing >>=
        fun room => appendEntry _ room) = _
      rw [hroom]
      exact happend
    · rw [if_neg hvalue]
      exact hpacked

theorem bind_eq_ok {α β : Type} {first : Except String α}
    {next : α → Except String β} {result : β} :
    (first >>= next) = .ok result ↔
      ∃ value, first = .ok value ∧ next value = .ok result := by
  cases first with
  | error message =>
    refine iff_of_false (fun heq => by cases heq) ?_
    rintro ⟨value, heq, -⟩
    cases heq
  | ok value =>
    constructor
    · exact fun heq => ⟨value, rfl, heq⟩
    · rintro ⟨other, heq, hnext⟩
      cases heq
      exact hnext

theorem packable_of_ok (hok : packSymbol table symbol packing = .ok packed) :
    Packable table symbol := by
  intro hvalue
  rw [packSymbol, if_neg hvalue, bind_eq_ok] at hok
  obtain ⟨name, hname, hok⟩ := hok
  obtain ⟨room, -, happend⟩ := bind_eq_ok.mp hok
  rw [nameOf_eq hname]
  refine ⟨hname, ?_⟩
  rw [appendEntry] at happend
  split at happend
  · omega
  · cases happend

theorem packSymbols_holds {symbols : List ElfSymbol}
    (hpackable : ∀ symbol ∈ symbols, Packable table symbol)
    (hholds : Holds packing bytes) (hbound : 12 + zlib.deflateBound
      (bytes ++ symbols.flatMap (packedBytes table)).length < 2 ^ 30) :
    ∃ packed, packSymbols table symbols packing = .ok packed ∧
      Holds packed (bytes ++ symbols.flatMap (packedBytes table)) := by
  induction symbols generalizing packing bytes with
  | nil =>
    rw [flatMap_nil, append_nil]
    exact ⟨packing, rfl, hholds⟩
  | cons symbol symbols ih =>
    obtain ⟨hfirst, hrest⟩ := forall_mem_cons.mp hpackable
    have hpart : bytes.length ≤ (bytes ++
        (symbol :: symbols).flatMap (packedBytes table)).length := by
      rw [length_append]
      exact Nat.le_add_right _ _
    have hmono := zlib.bound_mono hpart
    obtain ⟨packed, hpack, hpacked⟩ :=
      packSymbol_holds hfirst hholds (by omega)
    rw [flatMap_cons, ← append_assoc] at hbound ⊢
    obtain ⟨last, hlast, hresult⟩ := ih hrest hpacked hbound
    refine ⟨last, ?_, hresult⟩
    rw [packSymbols, hpack]
    exact hlast

theorem packables_of_ok {symbols : List ElfSymbol}
    (hok : packSymbols table symbols packing = .ok packed) :
    ∀ symbol ∈ symbols, Packable table symbol := by
  induction symbols generalizing packing with
  | nil => simp
  | cons symbol symbols ih =>
    obtain ⟨next, hfirst, hrest⟩ := bind_eq_ok.mp hok
    exact forall_mem_cons.mpr ⟨packable_of_ok hfirst, ih hrest⟩

def SectionPackable (sections : List ElfSection) (elfSection : ElfSection) :
    Prop :=
  elfSection.isSymbolTable = true →
    ∃ symbolTable, elfSection.symbols = some symbolTable ∧
      elfSection.sh_link.toNat < sections.length ∧
      ∀ symbol ∈ scannedSymbols symbolTable,
        Packable (stringTable sections elfSection.sh_link.toNat) symbol

def sectionBytes (sections : List ElfSection) (elfSection : ElfSection) :
    List UInt8 :=
  if elfSection.isSymbolTable then
    (scannedSymbols (elfSection.symbols.getD [])).flatMap
      (packedBytes (stringTable sections elfSection.sh_link.toNat))
  else
    []

theorem packSection_holds {elfSection : ElfSection}
    (hpackable : SectionPackable sections elfSection)
    (hholds : Holds packing bytes) (hbound : 12 + zlib.deflateBound
      (bytes ++ sectionBytes sections elfSection).length < 2 ^ 30) :
    ∃ packed, packSection sections elfSection packing = .ok packed ∧
      Holds packed (bytes ++ sectionBytes sections elfSection) := by
  rw [packSection]
  rw [sectionBytes] at hbound ⊢
  by_cases htable : elfSection.isSymbolTable = true
  · obtain ⟨symbolTable, hsymbols, hlink, hall⟩ := hpackable htable
    rw [if_pos htable, hsymbols, Option.getD_some] at hbound
    rw [if_pos htable, if_pos htable, hsymbols, Option.getD_some]
    dsimp only
    rw [if_pos hlink]
    exact packSymbols_holds hall hholds hbound
  · rw [if_neg htable, if_neg htable, append_nil]
    exact ⟨packing, rfl, hholds⟩

theorem sectionPackable_of_ok {elfSection : ElfSection}
    (hok : packSection sections elfSection packing = .ok packed) :
    SectionPackable sections elfSection := by
  intro htable
  rw [packSection, if_pos htable] at hok
  cases hsymbols : elfSection.symbols with
  | none =>
    rw [hsymbols] at hok
    cases hok
  | some symbolTable =>
    rw [hsymbols] at hok
    dsimp only at hok
    split at hok
    · rename_i hlink
      exact ⟨symbolTable, rfl, hlink, packables_of_ok hok⟩
    · cases hok

theorem packSections_holds {remaining : List ElfSection}
    (hpackable : ∀ elfSection ∈ remaining, SectionPackable sections elfSection)
    (hholds : Holds packing bytes) (hbound : 12 + zlib.deflateBound
      (bytes ++ remaining.flatMap (sectionBytes sections)).length < 2 ^ 30) :
    ∃ packed, packSections sections remaining packing = .ok packed ∧
      Holds packed (bytes ++ remaining.flatMap (sectionBytes sections)) := by
  induction remaining generalizing packing bytes with
  | nil =>
    rw [flatMap_nil, append_nil]
    exact ⟨packing, rfl, hholds⟩
  | cons elfSection remaining ih =>
    obtain ⟨hfirst, hrest⟩ := forall_mem_cons.mp hpackable
    rw [flatMap_cons, ← append_assoc] at hbound ⊢
    have hpart : (bytes ++ sectionBytes sections elfSection).length ≤
        (bytes ++ sectionBytes sections elfSection ++
          remaining.flatMap (sectionBytes sections)).length := by
      simp only [length_append]
      exact Nat.le_add_right _ _
    have hmono := zlib.bound_mono hpart
    obtain ⟨packed, hpack, hpacked⟩ :=
      packSection_holds hfirst hholds (by omega)
    obtain ⟨last, hlast, hresult⟩ := ih hrest hpacked hbound
    refine ⟨last, ?_, hresult⟩
    rw [packSections, hpack]
    exact hlast

theorem sectionsPackable_of_ok {remaining : List ElfSection}
    (hok : packSections sections remaining packing = .ok packed) :
    ∀ elfSection ∈ remaining, SectionPackable sections elfSection := by
  induction remaining generalizing packing with
  | nil => simp
  | cons elfSection remaining ih =>
    obtain ⟨next, hfirst, hrest⟩ := bind_eq_ok.mp hok
    exact forall_mem_cons.mpr ⟨sectionPackable_of_ok hfirst, ih hrest⟩

end

end CheatEngine.CeserverSymbols
