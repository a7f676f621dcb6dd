import CheatEngine.AutoAssemblerDefines
import CheatEngine.BitField
import CheatEngine.ExtentPacking
import CheatEngine.ObservedRun
import CheatEngine.SymhandlerAddress

/-!
# Global allocations of the symbol handler

A user defined symbol can own memory in the target.  The symbol handler cuts
it from the block that was allocated last, and allocates a new block when the
rest is too small or belongs to another process.
-/

namespace CheatEngine.GlobalAllocations

open AssemblerRewrite (Text val inttohex)
open AutoAssembler (sameName sameName_iff)
open List ExtentPacking
open Symhandler (Moment getAddressFromName getAddressInside evaluate literal)

/-! ## The source -/

structure UserdefinedSymbol where
  address : UInt64
  addressstring : Text
  symbolname : Text
  allocsize : UInt32
  processid : UInt32
  doNotSave : Bool
deriving DecidableEq

structure AllocCall where
  processid : UInt32
  region : UInt64
  size : ℕ
  address : UInt64
deriving DecidableEq

/-- What the calls answer, one after the other, and the search for a free
block, which sees what the calls before it have changed. -/
structure System where
  outcomes : ℕ → UInt64
  findFreeBlockForRegion : List AllocCall → UInt32 → UInt64 → ℕ → UInt64

structure State where
  userdefinedsymbols : List UserdefinedSymbol
  globalalloc : UInt64
  globalallocsizeleft : ℤ
  globalallocpid : ℤ
  calls : List AllocCall
deriving DecidableEq

/-- A call, the process that is opened, and what an address expression means
at that time. -/
structure Call where
  moment : Moment
  is64Bit : Bool
  processid : UInt32
  symbolname : Text
  size : UInt32
  preferedaddress : UInt64

inductive Failure
  | pleaseProvideABiggerSize
  | errorAllocatingMemory
  | theSymbolNamedWasPreviouslyDeclared (symbolname : Text)
      (allocsize size : UInt32)
  | alreadyExists (symbolname : Text)
  | failureDeterminingWhatMeans (name : Text)
  | youCanTAddASymbolWithAddress0
deriving DecidableEq

section

variable (userdefinedsymbols : List UserdefinedSymbol) (symbolname : Text)

def getUserdefinedSymbolByNameIndex :
    Option (Fin userdefinedsymbols.length) :=
  userdefinedsymbols.findFinIdx? fun symbol =>
    sameName symbol.symbolname symbolname

def getUserdefinedSymbolByName : UInt64 :=
  match getUserdefinedSymbolByNameIndex userdefinedsymbols symbolname with
  | none => 0
  | some i => userdefinedsymbols[i].address

def addUserdefinedSymbol (call : Call) (addressstring : Text) :
    Except Failure (List UserdefinedSymbol) :=
  if 0 < getUserdefinedSymbolByName userdefinedsymbols symbolname then
    .error (.alreadyExists symbolname)
  else
    match getAddressFromName call.moment call.is64Bit addressstring with
    | none => .error (.failureDeterminingWhatMeans addressstring)
    | some address =>
      if address = 0 then .error .youCanTAddASymbolWithAddress0
      else
        .ok (userdefinedsymbols ++
          [⟨address, addressstring, symbolname, 0, 0, false⟩])

def markAllocated (size processid : UInt32) : List UserdefinedSymbol :=
  match getUserdefinedSymbolByNameIndex userdefinedsymbols symbolname with
  | none => userdefinedsymbols
  | some i =>
    userdefinedsymbols.set i
      { userdefinedsymbols[i] with allocsize := size, processid }

end

def integer (value : ℤ) : ℤ :=
  value.bmod (2 ^ 32)

def blocksize (size : UInt32) : ℕ :=
  max 65536 size.toNat

def aligned (size : UInt32) : UInt32 :=
  (size + 15) &&& 0xfffffff0

section

variable (system : System)

def newAlloc (call : Call) (state : State) : State :=
  { state with
    globalalloc := system.outcomes state.calls.length
    globalallocsizeleft := integer (blocksize call.size)
    globalallocpid := integer call.processid.toNat
    calls := state.calls ++
      [⟨call.processid,
        system.findFreeBlockForRegion state.calls call.processid
          call.preferedaddress (blocksize call.size),
        blocksize call.size, system.outcomes state.calls.length⟩] }

def needsAlloc (call : Call) (state : State) : Bool :=
  state.globalallocpid ≠ call.processid.toNat || state.globalalloc = 0 ||
    state.globalallocsizeleft < call.size.toNat

def prepare (call : Call) (state : State) : State :=
  if needsAlloc call state then newAlloc system call state else state

def State.consume (state : State) (size : UInt32) : State :=
  { state with
    globalalloc := state.globalalloc + (aligned size).toUInt64
    globalallocsizeleft :=
      integer (state.globalallocsizeleft - (aligned size).toNat) }

def setUserdefinedSymbolAllocSize (state : State) (call : Call) :
    State × Except Failure Unit :=
  if call.size = 0 then (state, .error .pleaseProvideABiggerSize)
  else
    match getUserdefinedSymbolByNameIndex state.userdefinedsymbols
        call.symbolname with
    | none =>
      let state := prepare system call state
      if state.globalalloc = 0 then (state, .error .errorAllocatingMemory)
      else
        match addUserdefinedSymbol state.userdefinedsymbols
            call.symbolname call (inttohex state.globalalloc) with
        | .error failure => (state, .error failure)
        | .ok symbols =>
          ({ state.consume call.size with
              userdefinedsymbols := markAllocated symbols
                call.symbolname call.size call.processid },
            .ok ())
    | some i =>
      let symbol := state.userdefinedsymbols[i]
      if 0 < symbol.allocsize ∧ symbol.processid = call.processid ∧
          call.size ≠ symbol.allocsize then
        (state, .error (.theSymbolNamedWasPreviouslyDeclared
          symbol.symbolname symbol.allocsize call.size))
      else if symbol.processid ≠ call.processid then
        let after := prepare system call state
        if after.globalalloc = 0 then
          (after, .error .errorAllocatingMemory)
        else
          ({ after.consume call.size with
              userdefinedsymbols := state.userdefinedsymbols.set i
                { symbol with
                  address := after.globalalloc
                  addressstring := inttohex after.globalalloc
                  allocsize := call.size
                  processid := call.processid } },
            .ok ())
      else (state, .ok ())

structure Given where
  processid : UInt32
  symbolname : Text
  range : Extent
deriving DecidableEq

def UserdefinedSymbol.range (symbol : UserdefinedSymbol) : Extent :=
  ⟨symbol.address.toNat, symbol.allocsize.toNat⟩

def given (call : Call) (state : State) : List Given :=
  match getUserdefinedSymbolByNameIndex state.userdefinedsymbols
      call.symbolname with
  | none => []
  | some i =>
    if 0 < state.userdefinedsymbols[i].allocsize then
      [⟨call.processid, call.symbolname,
        state.userdefinedsymbols[i].range⟩]
    else []

def step (state : State) (call : Call) : State × List Given :=
  let result := setUserdefinedSymbolAllocSize system state call
  (result.1,
    match result.2 with
    | .ok _ => given call result.1
    | .error _ => [])

end

def AllocCall.block (call : AllocCall) : Extent :=
  ⟨call.address.toNat, call.size⟩

def AllocCall.ApartFrom (first second : AllocCall) : Prop :=
  first.address ≠ 0 → second.address ≠ 0 →
    first.processid = second.processid → Apart first.block second.block

/-- What the system promises about the blocks it returns. -/
structure Granted (calls : List AllocCall) : Prop where
  fits : ∀ call ∈ calls, call.address ≠ 0 →
    call.address.toNat + call.size ≤ 2 ^ 64
  apart : calls.Pairwise AllocCall.ApartFrom

structure Started (state : State) : Prop where
  noAlloc : state.globalalloc = 0
  unallocated : ∀ symbol ∈ state.userdefinedsymbols, symbol.allocsize = 0

def NeverOverlap (Distinct : Text → Text → Prop) (given : List Given) :
    Prop :=
  given.Pairwise fun first second =>
    first.processid = second.processid →
      Distinct first.symbolname second.symbolname →
        Apart first.range second.range

def InsideBlocks (calls : List AllocCall) (given : List Given) : Prop :=
  ∀ entry ∈ given, ∃ call ∈ calls, call.processid = entry.processid ∧
    call.address ≠ 0 ∧ entry.range.bytes ⊆ call.block.bytes

def RepeatsKeep (system : System) (state : State) : Prop :=
  ∀ call i, getUserdefinedSymbolByNameIndex state.userdefinedsymbols
      call.symbolname = some i →
    0 < state.userdefinedsymbols[i].allocsize →
    state.userdefinedsymbols[i].processid = call.processid →
      if call.size = state.userdefinedsymbols[i].allocsize then
        setUserdefinedSymbolAllocSize system state call = (state, .ok ())
      else
        ∃ failure, setUserdefinedSymbolAllocSize system state call =
          (state, .error failure)

theorem getAddressFromName_of_val {text : Text} {value : UInt64}
    (hvalue : val text = some value) (moment : Moment) (is64Bit : Bool) :
    getAddressFromName moment is64Bit text = some value := by
  have hliteral : literal (PascalText.trim text) = some value := by
    rw [Symhandler.trim_of_val hvalue, literal, if_neg, hvalue,
      Option.isSome_some, if_pos rfl]
    rintro ⟨hhead, _⟩
    obtain ⟨rest, rfl⟩ := head?_eq_some_iff.mp hhead
    obtain ⟨digit, hdigit⟩ :=
      (AssemblerRewrite.val_eq_some hvalue).2 '$' mem_cons_self
    have hdollar : HexText.hexValue '$' = none := by decide
    rw [hdollar] at hdigit
    cases hdigit
  rw [getAddressFromName]
  cases text.count '[' with
  | zero => rw [getAddressInside, evaluate, hliteral]
  | succ brackets => rw [getAddressInside, evaluate, hliteral]

variable {symbols : List UserdefinedSymbol} {symbolname : Text}
  {symbol : UserdefinedSymbol}

theorem getUserdefinedSymbolByName_of_none
    (hnone : getUserdefinedSymbolByNameIndex symbols symbolname = none) :
    getUserdefinedSymbolByName symbols symbolname = 0 := by
  rw [getUserdefinedSymbolByName, hnone]

theorem addUserdefinedSymbol_new
    (hnone : getUserdefinedSymbolByNameIndex symbols symbolname = none)
    (call : Call) {address : UInt64} (haddress : address ≠ 0) :
    addUserdefinedSymbol symbols symbolname call (inttohex address) =
      .ok (symbols ++
        [⟨address, inttohex address, symbolname, 0, 0, false⟩]) := by
  rw [addUserdefinedSymbol, getUserdefinedSymbolByName_of_none hnone,
    if_neg (by decide),
    getAddressFromName_of_val (AssemblerRewrite.val_inttohex address)]
  exact if_neg haddress

theorem getUserdefinedSymbolByNameIndex_append
    (hnone : getUserdefinedSymbolByNameIndex symbols symbol.symbolname = none) :
    getUserdefinedSymbolByNameIndex (symbols ++ [symbol]) symbol.symbolname =
      some ⟨symbols.length, by simp⟩ := by
  rw [getUserdefinedSymbolByNameIndex, findFinIdx?_eq_some_iff]
  refine ⟨?_, ?_⟩
  · simp [sameName_iff]
  · intro j hj
    have hlt : j.val < symbols.length := hj
    have hother := findFinIdx?_eq_none_iff.mp hnone symbols[j.val]
      (getElem_mem hlt)
    simpa [getElem_append_left hlt] using hother

theorem markAllocated_append {symbols : List UserdefinedSymbol}
    {symbol : UserdefinedSymbol}
    (hnone : getUserdefinedSymbolByNameIndex symbols symbol.symbolname = none)
    (size processid : UInt32) :
    markAllocated (symbols ++ [symbol]) symbol.symbolname size processid =
      symbols ++ [{ symbol with allocsize := size, processid }] := by
  rw [markAllocated, getUserdefinedSymbolByNameIndex_append hnone]
  simp

theorem sameName_of_index {i : Fin symbols.length}
    (hindex : getUserdefinedSymbolByNameIndex symbols symbolname = some i) :
    sameName symbols[i].symbolname symbolname = true :=
  (findFinIdx?_eq_some_iff.mp hindex).1

theorem sameName_symm {first second : Text}
    (hsame : sameName first second = true) : sameName second first = true :=
  sameName_iff.mpr (sameName_iff.mp hsame).symm

theorem sameName_trans {first second third : Text}
    (hfirst : sameName first second = true)
    (hsecond : sameName second third = true) :
    sameName first third = true :=
  sameName_iff.mpr ((sameName_iff.mp hfirst).trans (sameName_iff.mp hsecond))

theorem sameName_refl (name : Text) : sameName name name = true :=
  sameName_iff.mpr rfl

theorem toNat_and_fifteen (value : UInt32) :
    (value &&& 0xfffffff0).toNat = value.toNat / 16 * 16 := by
  have hlt := value.toNat_lt
  have hmask : (0xfffffff0 : UInt32).toNat = (2 ^ 28 - 1) * 2 ^ 4 := by decide
  rw [UInt32.toNat_and, hmask, BitField.and_high_mask]
  omega

theorem toNat_aligned (size : UInt32) :
    (aligned size).toNat = (size.toNat + 15) % 2 ^ 32 / 16 * 16 := by
  rw [aligned, toNat_and_fifteen, UInt32.toNat_add]
  rfl

theorem integer_eq (value : ℤ) :
    integer value = (value + 2 ^ 31) % 2 ^ 32 - 2 ^ 31 := by
  rw [integer, Int.bmod_eq_emod]
  norm_num
  split <;> omega

structure HasRoom (size : UInt32) (room : ℕ) : Prop where
  size_le : size.toNat ≤ room
  lt : room < 2 ^ 32
  shape : 16 ∣ room ∧ room < 2 ^ 31 ∨ room = size.toNat

theorem hasRoom_blocksize (size : UInt32) : HasRoom size (blocksize size) := by
  have hlt := size.toNat_lt
  unfold blocksize
  refine ⟨by omega, by omega, ?_⟩
  rcases le_or_gt size.toNat 65536 with hle | hgt
  · left
    rw [Nat.max_eq_left hle]
    exact ⟨by decide, by decide⟩
  · right
    omega

theorem left_after {size : UInt32} {room : ℕ} (hroom : HasRoom size room)
    {left : ℤ} (hleft : left = integer (integer room - (aligned size).toNat))
    (hpos : 0 < left) :
    size.toNat ≤ (aligned size).toNat ∧ (aligned size).toNat ≤ room ∧
      left = (room - (aligned size).toNat : ℕ) ∧
      16 ∣ room - (aligned size).toNat ∧
      room - (aligned size).toNat < 2 ^ 31 := by
  have hlt := size.toNat_lt
  have hle := hroom.size_le
  have hroomLt := hroom.lt
  rw [integer_eq, integer_eq] at hleft
  rw [toNat_aligned] at hleft ⊢
  rcases hroom.shape with ⟨⟨count, rfl⟩, hsmall⟩ | rfl
  · refine ⟨by omega, by omega, by omega, ⟨count - (size.toNat + 15) / 16,
      by omega⟩, by omega⟩
  · omega

/-! ## One call -/

def FreeRest (state : State) (grants : List Given) : Prop :=
  ∀ processid : UInt32, state.globalallocpid = processid.toNat →
    state.globalalloc ≠ 0 → ∀ room : ℕ, 0 < room →
      state.globalallocsizeleft = room → 16 ∣ room ∧ room < 2 ^ 31 ∧
        (∃ call ∈ state.calls, call.processid = processid ∧
          call.address ≠ 0 ∧
          call.address.toNat ≤ state.globalalloc.toNat ∧
          state.globalalloc.toNat + room ≤
            call.address.toNat + call.size) ∧
        ∀ entry ∈ grants, entry.processid = processid →
          Apart entry.range ⟨state.globalalloc.toNat, room⟩

structure Holds (state : State) (grants : List Given) : Prop where
  apart : grants.Pairwise fun first second =>
    first.processid = second.processid → Apart first.range second.range
  inside : InsideBlocks state.calls grants
  listed : ∀ symbol ∈ state.userdefinedsymbols, 0 < symbol.allocsize →
    ∃ entry ∈ grants, entry.processid = symbol.processid ∧
      sameName entry.symbolname symbol.symbolname = true ∧
      entry.range = symbol.range
  free : FreeRest state grants

theorem holds_started {state : State} (hstarted : Started state) :
    Holds state [] where
  apart := .nil
  inside entry hentry := by cases hentry
  listed symbol hsymbol hpos := by
    rw [hstarted.unallocated symbol hsymbol] at hpos
    exact absurd hpos (by decide)
  free processid _ halloc := absurd hstarted.noAlloc halloc

variable {system : System} {state : State} {grants : List Given} {call : Call}

theorem prepare_symbols :
    (prepare system call state).userdefinedsymbols =
      state.userdefinedsymbols := by
  unfold prepare
  split <;> rfl

theorem prepare_calls : state.calls <+: (prepare system call state).calls := by
  unfold prepare
  split
  · exact prefix_append _ _
  · exact prefix_rfl

theorem InsideBlocks.mono {calls after : List AllocCall}
    (hinside : InsideBlocks calls grants) (hcalls : calls <+: after) :
    InsideBlocks after grants := by
  intro entry hentry
  obtain ⟨block, hblock, hrest⟩ := hinside entry hentry
  exact ⟨block, hcalls.subset hblock, hrest⟩

structure Prepared (state : State) (grants : List Given) (call : Call)
    (room : ℕ) : Prop where
  hasRoom : HasRoom call.size room
  left : state.globalallocsizeleft = integer room
  pid : ∀ processid : UInt32, state.globalallocpid = processid.toNat →
    processid = call.processid
  block : ∃ block ∈ state.calls, block.processid = call.processid ∧
    block.address ≠ 0 ∧ block.address.toNat ≤ state.globalalloc.toNat ∧
    state.globalalloc.toNat + room ≤ block.address.toNat + block.size
  apart : ∀ entry ∈ grants, entry.processid = call.processid →
    Apart entry.range ⟨state.globalalloc.toNat, room⟩

theorem prepared_rest (hholds : Holds state grants) (hsize : call.size ≠ 0)
    (hneeds : needsAlloc call state = false) :
    ∃ room, Prepared state grants call room := by
  simp only [needsAlloc, ne_eq, Bool.or_eq_false_iff,
    decide_eq_false_iff_not, not_not, not_lt] at hneeds
  obtain ⟨⟨hpid, halloc⟩, hleft⟩ := hneeds
  have hpos : 0 < call.size.toNat :=
    Nat.pos_of_ne_zero fun h => hsize (UInt32.toNat_inj.mp h)
  obtain ⟨room, hroom⟩ := Int.eq_ofNat_of_zero_le
    (show 0 ≤ state.globalallocsizeleft by omega)
  obtain ⟨hdvd, hlt, hblock, hapart⟩ :=
    hholds.free call.processid hpid halloc room (by omega) hroom
  refine ⟨room, ⟨by omega, by omega, .inl ⟨hdvd, hlt⟩⟩, ?_, ?_, hblock, hapart⟩
  · rw [hroom, integer_eq]
    omega
  · intro processid hother
    rw [hpid] at hother
    exact UInt32.toNat_inj.mp (Int.ofNat_inj.mp hother.symm)

theorem newAlloc_calls : ∃ region,
    (newAlloc system call state).calls = state.calls ++
      [⟨call.processid, region, blocksize call.size,
        (newAlloc system call state).globalalloc⟩] :=
  ⟨_, rfl⟩

theorem prepared_new (hholds : Holds state grants)
    (hgranted : Granted (newAlloc system call state).calls)
    (halloc : (newAlloc system call state).globalalloc ≠ 0) :
    ∃ room, Prepared (newAlloc system call state) grants call room := by
  obtain ⟨region, hcalls⟩ := @newAlloc_calls system state call
  refine ⟨blocksize call.size, hasRoom_blocksize call.size, ?_, ?_, ?_, ?_⟩
  · rw [newAlloc]
  · intro processid hpid
    have hlt := processid.toNat_lt
    have hcall := call.processid.toNat_lt
    simp only [newAlloc, integer_eq] at hpid
    exact UInt32.toNat_inj.mp (by omega)
  · rw [hcalls]
    exact ⟨_, mem_append_right _ mem_cons_self, rfl, halloc,
      Nat.le_refl _, Nat.le_refl _⟩
  · intro entry hentry hpid
    obtain ⟨block, hblock, hsame, hne, hinside⟩ :=
      hholds.inside entry hentry
    rw [hcalls] at hgranted
    have hcross := (pairwise_append.mp hgranted.apart).2.2 block hblock
      _ mem_cons_self
    exact Disjoint.mono_left hinside (hcross hne halloc (hsame.trans hpid))

theorem exists_prepared (hholds : Holds state grants) (hsize : call.size ≠ 0)
    (hgranted : Granted (prepare system call state).calls)
    (halloc : (prepare system call state).globalalloc ≠ 0) :
    ∃ room, Prepared (prepare system call state) grants call room := by
  cases hneeds : needsAlloc call state with
  | true =>
    rw [prepare, if_pos hneeds] at hgranted halloc ⊢
    exact prepared_new hholds hgranted halloc
  | false =>
    rw [prepare, hneeds]
    exact prepared_rest hholds hsize hneeds

theorem holds_prepare_failed (hholds : Holds state grants)
    (hfailed : (prepare system call state).globalalloc = 0) :
    Holds (prepare system call state) grants where
  apart := hholds.apart
  inside := hholds.inside.mono prepare_calls
  listed := by
    rw [prepare_symbols]
    exact hholds.listed
  free _ _ halloc := absurd hfailed halloc

def Call.memory (call : Call) (state : State) : Given :=
  ⟨call.processid, call.symbolname,
    ⟨state.globalalloc.toNat, call.size.toNat⟩⟩

section

variable {room : ℕ}

section

variable (hprepared : Prepared state grants call room)

include hprepared

theorem Prepared.apart_memory :
    ∀ entry ∈ grants, entry.processid = (call.memory state).processid →
      Apart entry.range (call.memory state).range := by
  intro entry hentry hpid
  refine Disjoint.mono_right ?_ (hprepared.apart entry hentry hpid)
  exact Extent.bytes_subset le_rfl
    (Nat.add_le_add_left hprepared.hasRoom.size_le _)

theorem Prepared.memory_inside :
    ∃ block ∈ state.calls, block.processid = (call.memory state).processid ∧
      block.address ≠ 0 ∧
      (call.memory state).range.bytes ⊆ block.block.bytes := by
  obtain ⟨block, hblock, hpid, hne, hstart, hstop⟩ := hprepared.block
  refine ⟨block, hblock, hpid, hne, Extent.bytes_subset hstart ?_⟩
  have hle := hprepared.hasRoom.size_le
  simp only [Call.memory, AllocCall.block]
  omega

theorem Prepared.freeRest (hgranted : Granted state.calls) :
    FreeRest (state.consume call.size) (grants ++ [call.memory state]) := by
  intro processid hpid _ rest hrest hleft
  obtain rfl := hprepared.pid processid hpid
  have hroom := hprepared.left
  have hconsumed : (rest : ℤ) =
      integer (integer room - (aligned call.size).toNat) := by
    rw [← hroom]
    exact hleft.symm
  obtain ⟨hsize, hle, hrestEq, hdvd, hlt⟩ :=
    left_after hprepared.hasRoom hconsumed (by omega)
  obtain rfl : rest = room - (aligned call.size).toNat := by omega
  obtain ⟨block, hblock, hblockPid, hne, hstart, hstop⟩ := hprepared.block
  have hfits := hgranted.fits block hblock hne
  have hnext : (state.consume call.size).globalalloc.toNat =
      state.globalalloc.toNat + (aligned call.size).toNat := by
    change (state.globalalloc + (aligned call.size).toUInt64).toNat = _
    rw [UInt64.toNat_add, UInt32.toNat_toUInt64]
    exact Nat.mod_eq_of_lt (by omega)
  rw [hnext]
  refine ⟨hdvd, hlt, ⟨block, hblock, hblockPid, hne, by omega, by omega⟩, ?_⟩
  intro entry hentry hentryPid
  rcases mem_append.mp hentry with hold | hnew
  · refine Disjoint.mono_right ?_ (hprepared.apart entry hold hentryPid)
    exact Extent.bytes_subset (Nat.le_add_right _ _) (by simp only; omega)
  · rw [mem_singleton.mp hnew]
    exact Extent.disjoint_of_le (by simp only [Call.memory]; omega)

theorem Prepared.holds (hgranted : Granted state.calls)
    (happart : grants.Pairwise fun first second =>
      first.processid = second.processid → Apart first.range second.range)
    (hinside : InsideBlocks state.calls grants)
    {symbols : List UserdefinedSymbol}
    (hlisted : ∀ symbol ∈ symbols, 0 < symbol.allocsize →
      ∃ entry ∈ grants ++ [call.memory state],
        entry.processid = symbol.processid ∧
        sameName entry.symbolname symbol.symbolname = true ∧
        entry.range = symbol.range) :
    Holds { state.consume call.size with userdefinedsymbols := symbols }
      (grants ++ [call.memory state]) where
  apart := pairwise_append.mpr ⟨happart, pairwise_singleton _ _,
    fun entry hentry new hnew => by
      rw [mem_singleton.mp hnew]
      exact hprepared.apart_memory entry hentry⟩
  inside := by
    intro entry hentry
    rcases mem_append.mp hentry with hold | hnew
    · exact hinside entry hold
    · rw [mem_singleton.mp hnew]
      exact hprepared.memory_inside
  listed := hlisted
  free := hprepared.freeRest hgranted

end

end

/-- The symbol that the call was for owns the memory, and the others are as
before. -/
structure Enters (before after : List UserdefinedSymbol) (call : Call)
    (memory : Extent) : Prop where
  entered : ∀ symbol ∈ after, symbol ∈ before ∨
    (symbol.processid = call.processid ∧
      sameName call.symbolname symbol.symbolname = true ∧
      symbol.range = memory)
  index : ∀ i, getUserdefinedSymbolByNameIndex after call.symbolname =
    some i → after[i].processid = call.processid

inductive CallCases (system : System) (state : State) (call : Call) :
    State → Except Failure Unit → Prop
  | refused (failure : Failure) : CallCases system state call state
      (.error failure)
  | kept
      (hkept : ∀ i, getUserdefinedSymbolByNameIndex
        state.userdefinedsymbols call.symbolname = some i →
          state.userdefinedsymbols[i].processid = call.processid) :
      CallCases system state call state (.ok ())
  | failed (hfailed : (prepare system call state).globalalloc = 0) :
      CallCases system state call (prepare system call state)
        (.error .errorAllocatingMemory)
  | entered (symbols : List UserdefinedSymbol) (hsize : call.size ≠ 0)
      (halloc : (prepare system call state).globalalloc ≠ 0)
      (henters : Enters state.userdefinedsymbols symbols call
        (call.memory (prepare system call state)).range) :
      CallCases system state call
        { (prepare system call state).consume call.size with
          userdefinedsymbols := symbols }
        (.ok ())

theorem enters_append
    (hnone : getUserdefinedSymbolByNameIndex symbols call.symbolname = none)
    (hname : symbol.symbolname = call.symbolname)
    (hpid : symbol.processid = call.processid) :
    Enters symbols (symbols ++ [symbol]) call symbol.range where
  entered other hother := by
    rcases mem_append.mp hother with hold | hnew
    · exact .inl hold
    · rw [mem_singleton.mp hnew]
      exact .inr ⟨hpid, hname ▸ sameName_refl call.symbolname, rfl⟩
  index i hindex := by
    rw [← hname] at hnone hindex
    rw [getUserdefinedSymbolByNameIndex_append hnone] at hindex
    obtain rfl := Option.some.inj hindex
    simpa using hpid

theorem enters_set {i : Fin symbols.length}
    (hindex : getUserdefinedSymbolByNameIndex symbols call.symbolname =
      some i) (hname : symbol.symbolname = symbols[i].symbolname)
    (hpid : symbol.processid = call.processid) :
    Enters symbols (symbols.set i symbol) call symbol.range where
  entered other hother := by
    rcases mem_or_eq_of_mem_set hother with hold | rfl
    · exact .inl hold
    · exact .inr ⟨hpid, hname ▸ sameName_symm (sameName_of_index hindex),
        rfl⟩
  index j hj := by
    obtain ⟨hsame, hfirst⟩ := findFinIdx?_eq_some_iff.mp hj
    obtain ⟨hthis, hbefore⟩ := findFinIdx?_eq_some_iff.mp hindex
    have hlt : j.val < symbols.length := by
      simpa using j.isLt
    rcases lt_trichotomy j.val i.val with hless | heq | hgreater
    · have hnot := hbefore ⟨j.val, hlt⟩ hless
      simp only [Fin.getElem_fin, getElem_set, hless.ne', if_false] at hsame
      exact absurd hsame hnot
    · simp [heq, hpid]
    · have hnot := hfirst ⟨i.val, by simp⟩ hgreater
      simp only [Fin.getElem_fin, getElem_set_self, hname] at hnot
      exact absurd hthis hnot

theorem call_cases :
    CallCases system state call
      (setUserdefinedSymbolAllocSize system state call).1
      (setUserdefinedSymbolAllocSize system state call).2 := by
  rw [setUserdefinedSymbolAllocSize]
  by_cases hsize : call.size = 0
  · rw [if_pos hsize]
    exact .refused _
  rw [if_neg hsize]
  cases hindex : getUserdefinedSymbolByNameIndex state.userdefinedsymbols
      call.symbolname with
  | none =>
    by_cases halloc : (prepare system call state).globalalloc = 0
    · simp only [if_pos halloc]
      exact .failed halloc
    · have hnone := hindex
      rw [← @prepare_symbols system state call] at hnone
      have hadd := addUserdefinedSymbol_new hnone call halloc
      simp only [if_neg halloc, hadd]
      rw [prepare_symbols] at hnone ⊢
      have hmark := @markAllocated_append state.userdefinedsymbols
        ⟨(prepare system call state).globalalloc,
          inttohex (prepare system call state).globalalloc,
          call.symbolname, 0, 0, false⟩ hnone call.size call.processid
      simp only at hmark
      rw [hmark]
      exact .entered _ hsize halloc (enters_append hnone rfl rfl)
  | some i =>
    simp only
    split
    case isTrue => exact .refused _
    case isFalse hsame =>
      split
      case isTrue hpid =>
        by_cases halloc : (prepare system call state).globalalloc = 0
        · simp only [if_pos halloc]
          exact .failed halloc
        · simp only [if_neg halloc]
          exact .entered _ hsize halloc (enters_set hindex rfl rfl)
      case isFalse hpid =>
        refine .kept fun j hj => ?_
        rw [hindex] at hj
        obtain rfl := Option.some.inj hj
        exact not_not.mp hpid

/-! ## A run -/

def OwnedBy (grants : List Given) (answer : Given) : Prop :=
  ∃ entry ∈ grants, entry.processid = answer.processid ∧
    sameName entry.symbolname answer.symbolname = true ∧
    entry.range = answer.range

theorem OwnedBy.mono {later : List Given} {answer : Given}
    (howned : OwnedBy grants answer) (hlater : grants <+: later) :
    OwnedBy later answer := by
  obtain ⟨entry, hentry, hrest⟩ := howned
  exact ⟨entry, hlater.subset hentry, hrest⟩

theorem ownedBy_given (hholds : Holds state grants)
    (hpid : ∀ i, getUserdefinedSymbolByNameIndex state.userdefinedsymbols
      call.symbolname = some i →
        state.userdefinedsymbols[i].processid = call.processid) :
    ∀ answer ∈ given call state, OwnedBy grants answer := by
  intro answer hanswer
  rw [given] at hanswer
  cases hindex : getUserdefinedSymbolByNameIndex state.userdefinedsymbols
      call.symbolname with
  | none =>
    rw [hindex] at hanswer
    cases hanswer
  | some i =>
    rw [hindex] at hanswer
    simp only at hanswer
    split at hanswer
    case isTrue hpos =>
      rw [mem_singleton.mp hanswer]
      obtain ⟨entry, hentry, hentryPid, hname, hrange⟩ :=
        hholds.listed _ (getElem_mem i.isLt) hpos
      exact ⟨entry, hentry, hentryPid.trans (hpid i hindex),
        sameName_trans hname (sameName_of_index hindex), hrange⟩
    case isFalse => cases hanswer

theorem step_calls : state.calls <+: (step system state call).1.calls := by
  have hcases := @call_cases system state call
  rw [step]
  generalize setUserdefinedSymbolAllocSize system state call = result at hcases
  obtain ⟨after, outcome⟩ := result
  cases hcases with
  | refused => exact prefix_rfl
  | kept => exact prefix_rfl
  | failed => exact prepare_calls
  | entered => exact prepare_calls

theorem listed_enters (hholds : Holds state grants)
    (henters : Enters state.userdefinedsymbols symbols call
      (call.memory (prepare system call state)).range) :
    ∀ symbol ∈ symbols, 0 < symbol.allocsize →
      ∃ entry ∈ grants ++ [call.memory (prepare system call state)],
        entry.processid = symbol.processid ∧
        sameName entry.symbolname symbol.symbolname = true ∧
        entry.range = symbol.range := by
  intro symbol hsymbol hpos
  rcases henters.entered symbol hsymbol with hold | ⟨hpid, hname, hrange⟩
  · obtain ⟨entry, hentry, hrest⟩ := hholds.listed symbol hold hpos
    exact ⟨entry, mem_append_left _ hentry, hrest⟩
  · exact ⟨_, mem_append_right _ mem_cons_self, hpid.symm, hname,
      hrange.symm⟩

theorem step_holds (hholds : Holds state grants)
    (hgranted : Granted (step system state call).1.calls) :
    ∃ later, grants <+: later ∧ Holds (step system state call).1 later ∧
      ∀ answer ∈ (step system state call).2, OwnedBy later answer := by
  have hcases := @call_cases system state call
  rw [step] at hgranted ⊢
  generalize setUserdefinedSymbolAllocSize system state call = result
    at hcases hgranted ⊢
  obtain ⟨after, outcome⟩ := result
  cases hcases with
  | refused =>
    exact ⟨grants, prefix_rfl, hholds, by
      intro answer hanswer
      cases hanswer⟩
  | kept hkept =>
    exact ⟨grants, prefix_rfl, hholds, ownedBy_given hholds hkept⟩
  | failed hfailed =>
    exact ⟨grants, prefix_rfl, holds_prepare_failed hholds hfailed, by
      intro answer hanswer
      cases hanswer⟩
  | entered symbols hsize halloc henters =>
    obtain ⟨room, hprepared⟩ := exists_prepared hholds hsize hgranted halloc
    have hafter := hprepared.holds hgranted hholds.apart
      (hholds.inside.mono prepare_calls) (listed_enters hholds henters)
    exact ⟨_, prefix_append _ _, hafter,
      ownedBy_given hafter henters.index⟩

theorem Granted.of_prefix {calls after : List AllocCall}
    (hgranted : Granted after) (hcalls : calls <+: after) :
    Granted calls where
  fits block hblock := hgranted.fits block (hcalls.subset hblock)
  apart := hgranted.apart.sublist hcalls.sublist

theorem final_calls (calls : List Call) :
    ∀ state, state.calls <+:
      (ObservedRun.final (step system) state calls).calls := by
  induction calls with
  | nil => exact fun state => prefix_rfl
  | cons call rest ih => exact fun state => step_calls.trans (ih _)

theorem run_holds (calls : List Call) : ∀ {state : State}
    {grants : List Given}, Holds state grants →
    Granted (ObservedRun.final (step system) state calls).calls →
    ∃ later, grants <+: later ∧
      Holds (ObservedRun.final (step system) state calls) later ∧
      ∀ answer ∈ ObservedRun.answers (step system) state calls,
        OwnedBy later answer := by
  induction calls with
  | nil =>
    intro state grants hholds _
    exact ⟨grants, prefix_rfl, hholds, by
      intro answer hanswer
      cases hanswer⟩
  | cons call rest ih =>
    intro state grants hholds hgranted
    rw [ObservedRun.final] at hgranted ⊢
    obtain ⟨next, hnext, hholdsNext, hanswers⟩ :=
      step_holds hholds (hgranted.of_prefix (final_calls rest _))
    obtain ⟨later, hlater, hholdsLater, hrest⟩ := ih hholdsNext hgranted
    refine ⟨later, hnext.trans hlater, hholdsLater, ?_⟩
    intro answer hanswer
    rcases mem_append.mp hanswer with hfirst | hlast
    · exact (hanswers answer hfirst).mono hlater
    · exact hrest answer hlast

theorem neverOverlap_of_owned (hholds : Holds state grants)
    {answers : List Given}
    (howned : ∀ answer ∈ answers, OwnedBy grants answer) :
    NeverOverlap (fun first second => ¬ sameName first second = true)
      answers := by
  refine pairwise_of_forall_mem_list ?_
  intro first hfirst second hsecond hpid hdistinct
  obtain ⟨one, hone, honePid, honeName, honeRange⟩ := howned first hfirst
  obtain ⟨other, hother, hotherPid, hotherName, hotherRange⟩ :=
    howned second hsecond
  rw [← honeRange, ← hotherRange]
  have hne : one ≠ other := by
    rintro rfl
    exact hdistinct (sameName_trans (sameName_symm honeName) hotherName)
  have : Std.Symm fun first second : Given =>
      first.processid = second.processid → Apart first.range second.range :=
    ⟨fun _ _ happart hsame => (happart hsame.symm).symm⟩
  exact hholds.apart.forall hone hother hne (by rw [honePid, hotherPid, hpid])

theorem insideBlocks_of_owned (hholds : Holds state grants)
    {answers : List Given}
    (howned : ∀ answer ∈ answers, OwnedBy grants answer) :
    InsideBlocks state.calls answers := by
  intro answer hanswer
  obtain ⟨entry, hentry, hpid, _, hrange⟩ := howned answer hanswer
  rw [← hpid, ← hrange]
  exact hholds.inside entry hentry

theorem repeatsKeep (system : System) (state : State) :
    RepeatsKeep system state := by
  intro call i hindex hpos hpid
  rw [setUserdefinedSymbolAllocSize, hindex]
  split
  case isTrue hsize =>
    have hne : call.size ≠ 0 := by
      rw [hsize]
      exact (UInt32.pos_iff_ne_zero).mp hpos
    rw [if_neg hne]
    simp only
    rw [if_neg (fun hboth => hboth.2.2 hsize), if_neg (not_not.mpr hpid)]
  case isFalse hsize =>
    by_cases hzero : call.size = 0
    · exact ⟨_, if_pos hzero⟩
    · rw [if_neg hzero]
      exact ⟨_, if_pos ⟨hpos, hpid, hsize⟩⟩

/-- Names that differ in more than case never share memory of a process, all
of it lies in blocks of that process, and a name keeps its memory. -/
theorem globalAllocations_apart (system : System) (start : State)
    (hstarted : Started start) (calls : List Call)
    (hgranted : Granted (ObservedRun.final (step system) start calls).calls) :
    NeverOverlap (fun first second => ¬ sameName first second = true)
        (ObservedRun.answers (step system) start calls) ∧
      InsideBlocks (ObservedRun.final (step system) start calls).calls
        (ObservedRun.answers (step system) start calls) ∧
      RepeatsKeep system (ObservedRun.final (step system) start calls) := by
  obtain ⟨grants, _, hholds, howned⟩ :=
    run_holds calls (holds_started hstarted) hgranted
  exact ⟨neverOverlap_of_owned hholds howned,
    insideBlocks_of_owned hholds howned, repeatsKeep system _⟩

def twoProcesses : System where
  outcomes count := 0x10000 * (UInt64.ofNat count + 1)
  findFreeBlockForRegion _ _ preferedaddress _ := preferedaddress

def startState : State where
  userdefinedsymbols := []
  globalalloc := 0
  globalallocsizeleft := 0
  globalallocpid := 0
  calls := []

theorem startState_started : Started startState where
  noAlloc := rfl
  unallocated symbol hsymbol := by cases hsymbol

def callFor (processid : UInt32) (symbolname : String) (size : UInt32) :
    Call where
  moment := ⟨fun token => .unknown token, fun _ _ => (false, [])⟩
  is64Bit := true
  processid
  symbolname := symbolname.toList
  size
  preferedaddress := 0

def twoProcessesCalls : List Call :=
  [callFor 1 "first" 20, callFor 1 "second" 16, callFor 2 "first" 20,
    callFor 1 "third" 65536]

theorem granted_twoProcesses :
    Granted (ObservedRun.final (step twoProcesses) startState
      twoProcessesCalls).calls := by
  have hcalls : (ObservedRun.final (step twoProcesses) startState
      twoProcessesCalls).calls =
        [⟨1, 0, 65536, 0x10000⟩, ⟨2, 0, 65536, 0x20000⟩,
          ⟨1, 0, 65536, 0x30000⟩] := by
    decide
  rw [hcalls]
  constructor
  · decide
  · refine .cons ?_ (.cons ?_ (.cons ?_ .nil))
    · intro block hblock _ _ hpid
      rcases mem_pair.mp hblock with rfl | rfl
      · cases hpid
      · exact Extent.disjoint_of_le (by decide)
    · intro block hblock _ _ hpid
      rw [mem_singleton.mp hblock] at hpid
      cases hpid
    · intro block hblock
      cases hblock

theorem globalAllocations_apart_twoProcesses :
    NeverOverlap (fun first second => ¬ sameName first second = true)
        (ObservedRun.answers (step twoProcesses) startState
          twoProcessesCalls) ∧
      InsideBlocks
        (ObservedRun.final (step twoProcesses) startState
          twoProcessesCalls).calls
        (ObservedRun.answers (step twoProcesses) startState
          twoProcessesCalls) ∧
      RepeatsKeep twoProcesses
        (ObservedRun.final (step twoProcesses) startState twoProcessesCalls) :=
  globalAllocations_apart twoProcesses startState startState_started
    twoProcessesCalls granted_twoProcesses

def twoSpellings : List Call :=
  [callFor 1 "x" 16, callFor 1 "X" 16]

theorem twoSpellings_overlap :
    Started startState ∧
      Granted
        (ObservedRun.final (step twoProcesses) startState twoSpellings).calls ∧
      ¬ NeverOverlap (fun first second => first ≠ second)
        (ObservedRun.answers (step twoProcesses) startState
          twoSpellings) := by
  have hcalls : (ObservedRun.final (step twoProcesses) startState
      twoSpellings).calls = [⟨1, 0, 65536, 0x10000⟩] := by
    decide
  have hanswers : ObservedRun.answers (step twoProcesses) startState
      twoSpellings =
        [⟨1, ['x'], ⟨0x10000, 16⟩⟩, ⟨1, ['X'], ⟨0x10000, 16⟩⟩] := by
    decide
  rw [hcalls, hanswers]
  refine ⟨startState_started, ⟨by decide, pairwise_singleton _ _⟩, ?_⟩
  intro hnever
  have hapart := pairwise_pair.mp hnever rfl (by decide)
  have hshared := @Extent.start_mem_bytes ⟨0x10000, 16⟩ (by decide)
  exact Finset.disjoint_left.mp hapart hshared hshared

end CheatEngine.GlobalAllocations
