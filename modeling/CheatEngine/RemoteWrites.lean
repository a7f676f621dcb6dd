import CheatEngine.ByteMemory
import CheatEngine.ObservedRun

/-!
# Grouped writes to a remote process

Between `beginWriteProcessMemory` and the matching `endWriteProcessMemory`
the writes are only recorded.  The last `endWriteProcessMemory` joins blocks
that overlap or touch and then writes what is left.

A record gets the global `ProcessHandle` instead of the handle of the call,
and the list of records is not emptied after it was written.
-/

namespace CheatEngine
namespace Network

open List ByteMemory

/-- A process behind the connection or one on this machine. -/
inductive Target where
  | network (handle : ℕ)
  | windows (handle : ℕ)
deriving DecidableEq, Repr

/-- `((hProcess shr 24) and $ff)= $ce` marks a network handle. -/
def targetOf (hProcess : ℕ) : Target :=
  if hProcess >>> 24 &&& 0xff = 0xce then .network (hProcess &&& 0xffffff)
  else .windows hProcess

abbrev Memories : Type := Target → ℕ → UInt8

structure Block where
  processhandle : ℕ
  baseaddress : ℕ
  memory : List UInt8
deriving DecidableEq, Repr

namespace Block

def writeTo (block : Block) (memories : Memories) : Memories :=
  Function.update memories (targetOf block.processhandle)
    (store (memories (targetOf block.processhandle)) block.baseaddress
      block.memory)

def writeAll (blocks : List Block) (memories : Memories) : Memories :=
  blocks.foldl (fun before block => block.writeTo before) memories

def Writes (block : Block) (target : Target) (address : ℕ) : Prop :=
  target = targetOf block.processhandle ∧
    Covers block.baseaddress block.memory address

end Block

def integer (value : ℤ) : ℤ :=
  value.bmod (2 ^ 32)

def inRangeX (AValue AMin AMax : ℕ) : Bool :=
  AMin ≤ AValue ∧ AValue ≤ AMax

def grow (memory : List UInt8) (k : ℕ) : List UInt8 :=
  memory ++ List.replicate k 0

def overlay (memory : List UInt8) (k : ℕ) (bytes : List UInt8) :
    List UInt8 :=
  memory.mapIdx fun index old =>
    if k ≤ index then (bytes[index - k]?).getD old else old

namespace Block

def overlaps (block other : Block) : Bool :=
  inRangeX block.baseaddress other.baseaddress
      ((other.baseaddress + other.memory.length) % 2 ^ 64) ||
    inRangeX other.baseaddress block.baseaddress
      ((block.baseaddress + block.memory.length) % 2 ^ 64)

/-- Room in front of a block; `MoveMemory` moves `k` bytes. -/
def prependTo (block other : Block) : Block :=
  let k := integer (block.baseaddress - other.baseaddress)
  if k > 0 then
    let memory := grow block.memory k.toNat
    { block with
      baseaddress := other.baseaddress
      memory := overlay memory k.toNat (memory.take k.toNat) }
  else
    block

def extendTo (block other : Block) : Block :=
  let k := integer ((other.baseaddress + other.memory.length) -
    (block.baseaddress + block.memory.length))
  if k > 0 then { block with memory := grow block.memory k.toNat }
  else block

def copyFrom (block other : Block) : Block :=
  let k := integer (other.baseaddress - block.baseaddress)
  { block with memory := overlay block.memory k.toNat other.memory }

def merge (block other : Block) : Block :=
  ((block.prependTo other).extendTo other).copyFrom other

end Block

/-- The inner loop: a block takes in every later one that overlaps it.  The
second argument are the blocks that were passed over. -/
def absorb : Block → List Block → List Block → Block × List Block × Bool
  | block, passed, [] => (block, passed, false)
  | block, passed, other :: rest =>
    if block.overlaps other then
      let result := absorb (block.merge other) passed rest
      (result.1, result.2.1, true)
    else
      absorb block (passed ++ [other]) rest

/-- The outer loop: a block that took in another one is tried again.  Every
pass makes the list shorter or goes on to the next block, so the first
argument can be the length of the list. -/
def group : ℕ → List Block → List Block
  | 0, blocks => blocks
  | _ + 1, [] => []
  | passes + 1, block :: rest =>
    let result := absorb block [] rest
    if result.2.2 then group passes (result.1 :: result.2.1)
    else result.1 :: group passes result.2.1

structure Connection where
  WriteProcessMemoryBufferCount : ℤ
  WriteProcessMemoryBuffer : List Block
  ProcessHandle : ℕ
  memories : Memories

inductive WriteEvent where
  | openProcess (ProcessHandle : ℕ)
  | beginWriteProcessMemory
  | WriteProcessMemory (hProcess lpBaseAddress : ℕ) (lpBuffer : List UInt8)
  | endWriteProcessMemory
deriving Repr

namespace Connection

def beginWriteProcessMemory (connection : Connection) : Connection :=
  { connection with
    WriteProcessMemoryBufferCount :=
      connection.WriteProcessMemoryBufferCount + 1 }

def WriteProcessMemory (connection : Connection) (hProcess : ℕ)
    (lpBaseAddress : ℕ) (lpBuffer : List UInt8) : Connection :=
  if connection.WriteProcessMemoryBufferCount = 0 then
    { connection with
      memories :=
        Block.writeTo ⟨hProcess, lpBaseAddress, lpBuffer⟩
          connection.memories }
  else
    { connection with
      WriteProcessMemoryBuffer := connection.WriteProcessMemoryBuffer ++
        [⟨connection.ProcessHandle, lpBaseAddress, lpBuffer⟩] }

def grouped (connection : Connection) : List Block :=
  group connection.WriteProcessMemoryBuffer.length
    connection.WriteProcessMemoryBuffer

def endWriteProcessMemory (connection : Connection) : Connection :=
  let count := connection.WriteProcessMemoryBufferCount - 1
  if count = 0 then
    { connection with
      WriteProcessMemoryBufferCount := count
      WriteProcessMemoryBuffer := connection.grouped
      memories := Block.writeAll connection.grouped connection.memories }
  else
    { connection with WriteProcessMemoryBufferCount := count }

end Connection

def writeStep (connection : Connection) :
    WriteEvent → Connection × List Block
  | .openProcess ProcessHandle =>
    ({ connection with ProcessHandle := ProcessHandle }, [])
  | .beginWriteProcessMemory => (connection.beginWriteProcessMemory, [])
  | .WriteProcessMemory hProcess lpBaseAddress lpBuffer =>
    (connection.WriteProcessMemory hProcess lpBaseAddress lpBuffer,
      if connection.WriteProcessMemoryBufferCount = 0 then
        [⟨hProcess, lpBaseAddress, lpBuffer⟩]
      else [])
  | .endWriteProcessMemory =>
    (connection.endWriteProcessMemory,
      if connection.WriteProcessMemoryBufferCount - 1 = 0 then
        connection.grouped
      else [])

/-- Writing without grouping: the memories, the nesting depth and the writes
of the current round. -/
structure Direct where
  memories : Memories
  depth : ℕ
  round : List Block

def directStep (direct : Direct) : WriteEvent → Direct × List Block
  | .openProcess _ => (direct, [])
  | .beginWriteProcessMemory =>
    ({ direct with
        depth := direct.depth + 1
        round := if direct.depth = 0 then [] else direct.round }, [])
  | .WriteProcessMemory hProcess lpBaseAddress lpBuffer =>
    let block : Block := ⟨hProcess, lpBaseAddress, lpBuffer⟩
    ({ direct with
        memories := block.writeTo direct.memories
        round := direct.round ++ [block] }, [block])
  | .endWriteProcessMemory =>
    ({ direct with depth := direct.depth - 1 }, [])

/-! ## What joining two blocks writes -/

theorem integer_of_small {value : ℤ} (hlower : -2 ^ 31 < value)
    (hupper : value < 2 ^ 31) : integer value = value := by
  unfold integer
  apply Int.bmod_eq_of_le
  · norm_num
    omega
  · norm_num
    omega

@[simp]
theorem length_grow (memory : List UInt8) (k : ℕ) :
    (grow memory k).length = memory.length + k := by
  simp [grow]

@[simp]
theorem length_overlay (memory : List UInt8) (k : ℕ) (bytes : List UInt8) :
    (overlay memory k bytes).length = memory.length := by
  simp [overlay]

variable {memory : List UInt8} {blocks : List Block} {target : Target}
  {address : ℕ}

theorem getElem?_grow {index : ℕ} (k : ℕ) (hindex : index < memory.length) :
    (grow memory k)[index]? = memory[index]? :=
  getElem?_append_left hindex

theorem getElem?_overlay_of_not {bytes : List UInt8} {k index : ℕ}
    (hoff : ¬ (k ≤ index ∧ index < k + bytes.length)) :
    (overlay memory k bytes)[index]? = memory[index]? := by
  have hsame : ∀ old : UInt8,
      (if k ≤ index then (bytes[index - k]?).getD old else old) = old := by
    intro old
    split
    · rename_i hle
      rw [getElem?_eq_none (by omega), Option.getD_none]
    · rfl
  rw [overlay, getElem?_mapIdx]
  cases memory[index]? with
  | none => rfl
  | some old => exact congrArg some (hsame old)

theorem getElem?_overlay {bytes : List UInt8} {k index : ℕ} (hle : k ≤ index)
    (hlt : index < k + bytes.length) (hindex : index < memory.length) :
    (overlay memory k bytes)[index]? = bytes[index - k]? := by
  have hcopied : index - k < bytes.length := by omega
  rw [overlay, getElem?_mapIdx, getElem?_eq_getElem hindex, Option.map_some,
    if_pos hle, getElem?_eq_getElem hcopied, Option.getD_some]

namespace Block

/-- The block that has the other's bytes where it has some and the first
one's elsewhere. -/
structure Joins (result block other : Block) : Prop where
  processhandle_eq : result.processhandle = block.processhandle
  target_eq : targetOf block.processhandle = targetOf other.processhandle
  covers_iff : ∀ address, Covers result.baseaddress result.memory address ↔
    Covers block.baseaddress block.memory address ∨
      Covers other.baseaddress other.memory address
  other_bytes : ∀ address,
    Covers other.baseaddress other.memory address →
      result.memory[address - result.baseaddress]? =
        other.memory[address - other.baseaddress]?
  block_bytes : ∀ address,
    Covers block.baseaddress block.memory address →
      ¬ Covers other.baseaddress other.memory address →
        result.memory[address - result.baseaddress]? =
          block.memory[address - block.baseaddress]?

variable {block other result : Block}

theorem Joins.store_eq (hjoins : Joins result block other)
    (memory : ℕ → UInt8) :
    store memory result.baseaddress result.memory =
      store (store memory block.baseaddress block.memory)
        other.baseaddress other.memory := by
  funext address
  by_cases hother : Covers other.baseaddress other.memory address
  · obtain ⟨value, hvalue⟩ := exists_getElem?_of_covers hother
    have hresult := (hjoins.covers_iff address).mpr (Or.inr hother)
    rw [store_of_covers _ hother.1 hvalue]
    apply store_of_covers _ hresult.1
    rw [hjoins.other_bytes address hother, hvalue]
  · rw [store_of_not_covers _ hother]
    by_cases hblock : Covers block.baseaddress block.memory address
    · obtain ⟨value, hvalue⟩ := exists_getElem?_of_covers hblock
      have hresult := (hjoins.covers_iff address).mpr (Or.inl hblock)
      rw [store_of_covers _ hblock.1 hvalue]
      apply store_of_covers _ hresult.1
      rw [hjoins.block_bytes address hblock hother, hvalue]
    · have hresult : ¬ Covers result.baseaddress result.memory address := by
        rw [hjoins.covers_iff]
        exact not_or.mpr ⟨hblock, hother⟩
      rw [store_of_not_covers _ hblock, store_of_not_covers _ hresult]

theorem Joins.writeTo_eq (hjoins : Joins result block other)
    (memories : Memories) :
    result.writeTo memories = other.writeTo (block.writeTo memories) := by
  unfold writeTo
  rw [hjoins.processhandle_eq, ← hjoins.target_eq, Function.update_self,
    Function.update_idem, hjoins.store_eq]

/-- When joining works: the two belong to one process and are far from the
ends of the address space and of an `integer`, and if the second one starts
earlier, then either `MoveMemory` moves the whole first block or the second
one covers it. -/
structure Joinable (block other : Block) : Prop where
  target_eq : targetOf block.processhandle = targetOf other.processhandle
  block_end : block.baseaddress + block.memory.length < 2 ^ 64
  other_end : other.baseaddress + other.memory.length < 2 ^ 64
  small : block.memory.length + other.memory.length < 2 ^ 31
  moved : other.baseaddress < block.baseaddress →
    block.baseaddress - other.baseaddress ≤ block.memory.length ∧
      (block.baseaddress - other.baseaddress = block.memory.length ∨
        block.baseaddress + block.memory.length ≤
          other.baseaddress + other.memory.length)

theorem Joinable.near (hjoinable : Joinable block other)
    (hoverlaps : block.overlaps other = true) :
    block.baseaddress ≤ other.baseaddress + other.memory.length ∧
      other.baseaddress ≤ block.baseaddress + block.memory.length := by
  unfold overlaps inRangeX at hoverlaps
  rw [Nat.mod_eq_of_lt hjoinable.other_end,
    Nat.mod_eq_of_lt hjoinable.block_end] at hoverlaps
  simp only [Bool.or_eq_true, decide_eq_true_eq] at hoverlaps
  omega

theorem extendTo_spec (block : Block) {other : Block}
    (hafter : block.baseaddress ≤ other.baseaddress)
    (hnear : other.baseaddress ≤ block.baseaddress + block.memory.length)
    (hblock : block.memory.length < 2 ^ 31)
    (hother : other.memory.length < 2 ^ 31) :
    (block.extendTo other).baseaddress = block.baseaddress ∧
      (block.extendTo other).processhandle = block.processhandle ∧
      block.baseaddress + (block.extendTo other).memory.length =
        max (block.baseaddress + block.memory.length)
          (other.baseaddress + other.memory.length) ∧
      ∀ index < block.memory.length,
        (block.extendTo other).memory[index]? = block.memory[index]? := by
  have hk : integer ((other.baseaddress + other.memory.length : ℤ) -
      (block.baseaddress + block.memory.length)) =
      (other.baseaddress + other.memory.length : ℤ) -
        (block.baseaddress + block.memory.length) := by
    apply integer_of_small <;> omega
  unfold extendTo
  rw [hk]
  dsimp only
  split
  · refine ⟨rfl, rfl, ?_, ?_⟩
    · rw [length_grow]
      omega
    · intro index hindex
      exact getElem?_grow _ hindex
  · refine ⟨rfl, rfl, ?_, fun _ _ => rfl⟩
    omega

theorem joins_of_extendTo {block other : Block}
    (htarget : targetOf block.processhandle = targetOf other.processhandle)
    (hafter : block.baseaddress ≤ other.baseaddress)
    (hnear : other.baseaddress ≤ block.baseaddress + block.memory.length)
    (hblock : block.memory.length < 2 ^ 31)
    (hother : other.memory.length < 2 ^ 31) :
    Joins ((block.extendTo other).copyFrom other) block other := by
  obtain ⟨hbase, hhandle, hlength, hold⟩ :=
    block.extendTo_spec hafter hnear hblock hother
  set extended := block.extendTo other
  have hk : integer ((other.baseaddress : ℤ) - extended.baseaddress) =
      (other.baseaddress : ℤ) - block.baseaddress := by
    rw [hbase]
    apply integer_of_small <;> omega
  have hresult : extended.copyFrom other =
      { extended with
        memory := overlay extended.memory
          (other.baseaddress - block.baseaddress) other.memory } := by
    unfold copyFrom
    rw [hk]
    dsimp only
    have hnat : ((other.baseaddress : ℤ) - block.baseaddress).toNat =
        other.baseaddress - block.baseaddress := by
      omega
    rw [hnat]
  rw [hresult]
  constructor
  · exact hhandle
  · exact htarget
  · intro address
    unfold Covers
    dsimp only
    rw [length_overlay, hbase, hlength]
    omega
  · rintro address ⟨hle, hlt⟩
    dsimp only
    rw [hbase, getElem?_overlay]
    · congr 1
      omega
    · omega
    · omega
    · omega
  · rintro address ⟨hle, hlt⟩ hoff
    unfold Covers at hoff
    dsimp only
    rw [hbase, getElem?_overlay_of_not]
    · exact hold _ (by omega)
    · omega

theorem Joinable.prependTo_spec (hjoinable : Joinable block other)
    (hbefore : other.baseaddress < block.baseaddress) :
    (block.prependTo other).baseaddress = other.baseaddress ∧
      (block.prependTo other).processhandle = block.processhandle ∧
      other.baseaddress + (block.prependTo other).memory.length =
        block.baseaddress + block.memory.length ∧
      (block.baseaddress - other.baseaddress = block.memory.length →
        ∀ index < block.memory.length,
          (block.prependTo other).memory[
            block.baseaddress - other.baseaddress + index]? =
              block.memory[index]?) := by
  have hsmall := hjoinable.small
  have hmoved := (hjoinable.moved hbefore).1
  have hk : integer ((block.baseaddress : ℤ) - other.baseaddress) =
      (block.baseaddress : ℤ) - other.baseaddress := by
    apply integer_of_small <;> omega
  have hnat : ((block.baseaddress : ℤ) - other.baseaddress).toNat =
      block.baseaddress - other.baseaddress := by
    omega
  unfold prependTo
  rw [hk]
  dsimp only
  rw [hnat, if_pos (by omega)]
  refine ⟨rfl, rfl, ?_, ?_⟩
  · rw [length_overlay, length_grow]
    omega
  · intro hwhole index hindex
    rw [getElem?_overlay]
    · rw [Nat.add_sub_cancel_left, getElem?_take_of_lt (by omega)]
      exact getElem?_grow _ hindex
    · omega
    · rw [length_take, length_grow]
      omega
    · rw [length_grow]
      omega

theorem Joinable.merge_joins (hjoinable : Joinable block other)
    (hoverlaps : block.overlaps other = true) :
    Joins (block.merge other) block other := by
  obtain ⟨hnear, hnear'⟩ := hjoinable.near hoverlaps
  have hsmall := hjoinable.small
  by_cases hbefore : other.baseaddress < block.baseaddress
  · obtain ⟨hbase, hhandle, hlength, hbytes⟩ :=
      hjoinable.prependTo_spec hbefore
    have hjoins : Joins (block.merge other) (block.prependTo other)
        other := by
      apply joins_of_extendTo
      · rw [hhandle]
        exact hjoinable.target_eq
      · omega
      · omega
      · omega
      · omega
    constructor
    · rw [hjoins.processhandle_eq, hhandle]
    · exact hjoinable.target_eq
    · intro address
      rw [hjoins.covers_iff]
      unfold Covers
      omega
    · exact hjoins.other_bytes
    · intro address hcovers hoff
      have hprepended : Covers (block.prependTo other).baseaddress
          (block.prependTo other).memory address := by
        unfold Covers at hcovers hoff ⊢
        omega
      rw [hjoins.block_bytes address hprepended hoff, hbase]
      unfold Covers at hcovers hoff
      rcases (hjoinable.moved hbefore).2 with hwhole | hcovered
      · rw [← hbytes hwhole (address - block.baseaddress) (by omega)]
        congr 1
        omega
      · omega
  · have hsame : block.prependTo other = block := by
      have hk : integer ((block.baseaddress : ℤ) - other.baseaddress) =
          (block.baseaddress : ℤ) - other.baseaddress := by
        apply integer_of_small <;> omega
      unfold prependTo
      rw [hk]
      exact if_neg (by omega)
    unfold merge
    rw [hsame]
    exact joins_of_extendTo hjoinable.target_eq (by omega) hnear'
      (by omega) (by omega)

/-! ## What grouping writes -/

def Apart (block other : Block) : Prop :=
  ∀ target address, block.Writes target address →
    ¬ other.Writes target address

theorem Apart.writeTo_comm (hapart : Apart block other) (memories : Memories) :
    other.writeTo (block.writeTo memories) =
      block.writeTo (other.writeTo memories) := by
  unfold writeTo
  by_cases htarget : targetOf block.processhandle =
      targetOf other.processhandle
  · rw [← htarget, Function.update_self, Function.update_self,
      Function.update_idem, Function.update_idem, store_comm]
    intro address hblock hother
    exact hapart _ address ⟨rfl, hblock⟩ ⟨htarget, hother⟩
  · rw [Function.update_of_ne htarget, Function.update_of_ne (Ne.symm htarget),
      Function.update_comm (Ne.symm htarget)]

@[simp]
theorem writeAll_nil (memories : Memories) : writeAll [] memories = memories :=
  rfl

@[simp]
theorem writeAll_cons (block : Block) (blocks : List Block)
    (memories : Memories) :
    writeAll (block :: blocks) memories =
      writeAll blocks (block.writeTo memories) :=
  rfl

theorem writeAll_append (blocks more : List Block) (memories : Memories) :
    writeAll (blocks ++ more) memories =
      writeAll more (writeAll blocks memories) :=
  foldl_append

theorem writeAll_writeTo {blocks : List Block}
    (hapart : ∀ between ∈ blocks, between.Apart other) (memories : Memories) :
    writeAll blocks (other.writeTo memories) =
      other.writeTo (writeAll blocks memories) := by
  induction blocks generalizing memories with
  | nil => rfl
  | cons between rest ih =>
    have hfirst : between.Apart other := hapart between (by simp)
    have hrest : ∀ later ∈ rest, later.Apart other := by
      intro later hlater
      exact hapart later (mem_cons_of_mem _ hlater)
    rw [writeAll_cons, writeAll_cons, ← ih hrest, hfirst.writeTo_comm]

end Block

open Block

def SomeWrites (blocks : List Block) (target : Target) (address : ℕ) :
    Prop :=
  ∃ block ∈ blocks, block.Writes target address

theorem SomeWrites.mono {more : List Block} (hsub : blocks ⊆ more)
    (hwrites : SomeWrites blocks target address) :
    SomeWrites more target address := by
  obtain ⟨block, hmem, hblock⟩ := hwrites
  exact ⟨block, hsub hmem, hblock⟩

/-- Every block that is taken in can be joined, and is apart from those that
were passed over: it is written before them although it came later. -/
def Absorbable : Block → List Block → List Block → Prop
  | _, _, [] => True
  | block, passed, other :: rest =>
    if block.overlaps other then
      block.Joinable other ∧ (∀ between ∈ passed, between.Apart other) ∧
        Absorbable (block.merge other) passed rest
    else
      Absorbable block (passed ++ [other]) rest

/-- All passes of the outer loop take in only what can be taken in. -/
def Groupable : ℕ → List Block → Prop
  | 0, _ => True
  | _ + 1, [] => True
  | passes + 1, block :: rest =>
    Absorbable block [] rest ∧
      if (absorb block [] rest).2.2 then
        Groupable passes
          ((absorb block [] rest).1 :: (absorb block [] rest).2.1)
      else
        Groupable passes (absorb block [] rest).2.1

theorem absorb_writeAll {block : Block} {passed rest : List Block}
    (habsorbable : Absorbable block passed rest) (memories : Memories) :
    writeAll ((absorb block passed rest).1 ::
        (absorb block passed rest).2.1) memories =
      writeAll (block :: (passed ++ rest)) memories := by
  induction rest generalizing block passed with
  | nil => simp [absorb]
  | cons other rest ih =>
    unfold Absorbable at habsorbable
    unfold absorb
    by_cases hoverlaps : block.overlaps other = true
    · rw [if_pos hoverlaps] at habsorbable ⊢
      obtain ⟨hjoinable, hapart, hrest⟩ := habsorbable
      have hjoins := hjoinable.merge_joins hoverlaps
      calc writeAll _ memories =
          writeAll (block.merge other :: (passed ++ rest)) memories :=
            ih hrest
        _ = writeAll (block :: (passed ++ other :: rest)) memories := by
            rw [writeAll_cons, writeAll_cons, writeAll_append, writeAll_append,
              writeAll_cons, hjoins.writeTo_eq, writeAll_writeTo hapart]
    · rw [if_neg hoverlaps] at habsorbable ⊢
      rw [ih habsorbable, append_assoc, singleton_append]

theorem absorb_someWrites {block : Block} {passed rest : List Block}
    (habsorbable : Absorbable block passed rest)
    (hwrites : SomeWrites ((absorb block passed rest).1 ::
      (absorb block passed rest).2.1) target address) :
    SomeWrites (block :: (passed ++ rest)) target address := by
  induction rest generalizing block passed with
  | nil => simpa [absorb] using hwrites
  | cons other rest ih =>
    unfold Absorbable at habsorbable
    unfold absorb at hwrites
    by_cases hoverlaps : block.overlaps other = true
    · rw [if_pos hoverlaps] at habsorbable hwrites
      obtain ⟨hjoinable, _, hrest⟩ := habsorbable
      have hjoins := hjoinable.merge_joins hoverlaps
      obtain ⟨writer, hmem, hwriter⟩ := ih hrest hwrites
      rcases mem_cons.mp hmem with hmerged | hlater
      · rw [hmerged] at hwriter
        obtain ⟨htarget, hcovers⟩ := hwriter
        rw [hjoins.processhandle_eq] at htarget
        rcases (hjoins.covers_iff address).mp hcovers with hfirst | hsecond
        · exact ⟨block, by simp, htarget, hfirst⟩
        · exact ⟨other, by simp, htarget.trans hjoins.target_eq, hsecond⟩
      · refine ⟨writer, ?_, hwriter⟩
        rcases mem_append.mp hlater with hpassed | hrest
        · simp [hpassed]
        · simp [hrest]
    · rw [if_neg hoverlaps] at habsorbable hwrites
      have hall := ih habsorbable hwrites
      rwa [append_assoc, singleton_append] at hall

theorem group_writeAll {passes : ℕ} (hgroupable : Groupable passes blocks)
    (memories : Memories) :
    writeAll (group passes blocks) memories = writeAll blocks memories := by
  induction passes generalizing blocks memories with
  | zero => rfl
  | succ passes ih =>
    cases blocks with
    | nil => rfl
    | cons block rest =>
      obtain ⟨habsorbable, hnext⟩ := hgroupable
      have hpass := absorb_writeAll habsorbable memories
      rw [nil_append] at hpass
      rw [← hpass]
      unfold group
      dsimp only
      by_cases hagain : (absorb block [] rest).2.2 = true
      · rw [if_pos hagain] at hnext ⊢
        exact ih hnext memories
      · rw [if_neg hagain] at hnext ⊢
        rw [writeAll_cons, writeAll_cons]
        exact ih hnext _

theorem group_someWrites {passes : ℕ} (hgroupable : Groupable passes blocks)
    (hwrites : SomeWrites (group passes blocks) target address) :
    SomeWrites blocks target address := by
  induction passes generalizing blocks with
  | zero => exact hwrites
  | succ passes ih =>
    cases blocks with
    | nil => exact hwrites
    | cons block rest =>
      obtain ⟨habsorbable, hnext⟩ := hgroupable
      apply absorb_someWrites habsorbable
      unfold group at hwrites
      dsimp only at hwrites
      by_cases hagain : (absorb block [] rest).2.2 = true
      · rw [if_pos hagain] at hnext hwrites
        exact ih hnext hwrites
      · rw [if_neg hagain] at hnext hwrites
        obtain ⟨writer, hmem, hwriter⟩ := hwrites
        rcases mem_cons.mp hmem with hfirst | hlater
        · exact ⟨writer, hfirst ▸ mem_cons_self, hwriter⟩
        · exact (ih hnext ⟨writer, hlater, hwriter⟩).mono
            (subset_cons_self _ _)

/-! ## Whole runs -/

/-- The calls that grouping gets right: a round starts with an empty list,
its writes go to the process of the global handle, and its blocks can be
grouped. -/
def Groups (connection : Connection) : WriteEvent → Prop
  | .openProcess _ => True
  | .beginWriteProcessMemory =>
    connection.WriteProcessMemoryBufferCount = 0 →
      connection.WriteProcessMemoryBuffer = []
  | .WriteProcessMemory hProcess _ _ =>
    connection.WriteProcessMemoryBufferCount ≠ 0 →
      targetOf hProcess = targetOf connection.ProcessHandle
  | .endWriteProcessMemory =>
    0 < connection.WriteProcessMemoryBufferCount ∧
      (connection.WriteProcessMemoryBufferCount = 1 →
        Groupable connection.WriteProcessMemoryBuffer.length
          connection.WriteProcessMemoryBuffer)

/-- Outside a round the memories agree; inside they do once the recorded
writes are done. -/
structure Pending (connection : Connection) (direct : Direct) : Prop where
  count_eq : connection.WriteProcessMemoryBufferCount = direct.depth
  outside : direct.depth = 0 → connection.memories = direct.memories
  inside : direct.depth ≠ 0 →
    writeAll connection.WriteProcessMemoryBuffer connection.memories =
      direct.memories
  recorded : direct.depth ≠ 0 → ∀ target address,
    SomeWrites connection.WriteProcessMemoryBuffer target address →
      SomeWrites direct.round target address

variable {connection : Connection} {direct : Direct}

theorem Pending.beginRound (hpending : Pending connection direct)
    (hgroups : Groups connection .beginWriteProcessMemory) :
    Pending connection.beginWriteProcessMemory
      (directStep direct .beginWriteProcessMemory).1 := by
  by_cases hdepth : direct.depth = 0
  · have hempty : connection.WriteProcessMemoryBuffer = [] := by
      apply hgroups
      rw [hpending.count_eq, hdepth]
      rfl
    constructor
    · change connection.WriteProcessMemoryBufferCount + 1 = _
      rw [hpending.count_eq]
      rfl
    · exact fun hcontra => absurd hcontra (Nat.succ_ne_zero _)
    · intro _
      change writeAll connection.WriteProcessMemoryBuffer _ = _
      rw [hempty]
      exact hpending.outside hdepth
    · rintro _ target address ⟨block, hmem, _⟩
      change block ∈ connection.WriteProcessMemoryBuffer at hmem
      rw [hempty] at hmem
      exact absurd hmem not_mem_nil
  · constructor
    · change connection.WriteProcessMemoryBufferCount + 1 = _
      rw [hpending.count_eq]
      rfl
    · exact fun hcontra => absurd hcontra (Nat.succ_ne_zero _)
    · exact fun _ => hpending.inside hdepth
    · intro _ target address hwrites
      change SomeWrites (if direct.depth = 0 then [] else direct.round) _ _
      rw [if_neg hdepth]
      exact hpending.recorded hdepth target address hwrites

theorem Pending.write (hpending : Pending connection direct)
    {hProcess lpBaseAddress : ℕ} {lpBuffer : List UInt8}
    (hgroups : Groups connection
      (.WriteProcessMemory hProcess lpBaseAddress lpBuffer)) :
    Pending
      (connection.WriteProcessMemory hProcess lpBaseAddress lpBuffer)
      (directStep direct
        (.WriteProcessMemory hProcess lpBaseAddress lpBuffer)).1 := by
  unfold Connection.WriteProcessMemory
  by_cases hcount : connection.WriteProcessMemoryBufferCount = 0
  · have hdepth : direct.depth = 0 := by
      have hsame := hpending.count_eq
      omega
    rw [if_pos hcount]
    constructor
    · exact hpending.count_eq
    · intro _
      change writeTo _ connection.memories = writeTo _ direct.memories
      rw [hpending.outside hdepth]
    · exact fun hcontra => absurd hdepth hcontra
    · exact fun hcontra => absurd hdepth hcontra
  · have hdepth : direct.depth ≠ 0 := by
      have hsame := hpending.count_eq
      omega
    have htarget := hgroups hcount
    rw [if_neg hcount]
    constructor
    · exact hpending.count_eq
    · exact fun hcontra => absurd hcontra hdepth
    · intro _
      change writeAll (connection.WriteProcessMemoryBuffer ++ [_])
        connection.memories = writeTo _ direct.memories
      rw [writeAll_append, hpending.inside hdepth, writeAll_cons, writeAll_nil]
      unfold writeTo
      rw [htarget]
    · rintro _ target address ⟨block, hmem, hwrites⟩
      rcases mem_append.mp hmem with hold | hnew
      · exact (hpending.recorded hdepth target address
          ⟨block, hold, hwrites⟩).mono (subset_append_left _ _)
      · rw [mem_singleton] at hnew
        rw [hnew] at hwrites
        refine ⟨⟨hProcess, lpBaseAddress, lpBuffer⟩, ?_, ?_, hwrites.2⟩
        · exact mem_append_right _ (mem_singleton_self _)
        · exact hwrites.1.trans htarget.symm

theorem Pending.endRound (hpending : Pending connection direct)
    (hgroups : Groups connection .endWriteProcessMemory) :
    Pending connection.endWriteProcessMemory
      (directStep direct .endWriteProcessMemory).1 := by
  obtain ⟨hopen, hgroupable⟩ := hgroups
  have hcount := hpending.count_eq
  have hdepth : direct.depth ≠ 0 := by omega
  have hleft : connection.WriteProcessMemoryBufferCount - 1 =
      ((direct.depth - 1 : ℕ) : ℤ) := by
    omega
  unfold Connection.endWriteProcessMemory
  dsimp only
  by_cases hlast : connection.WriteProcessMemoryBufferCount - 1 = 0
  · have hzero : direct.depth - 1 = 0 := by omega
    rw [if_pos hlast]
    constructor
    · exact hleft
    · intro _
      change writeAll connection.grouped connection.memories = direct.memories
      rw [Connection.grouped, group_writeAll (hgroupable (by omega)),
        hpending.inside hdepth]
    · exact fun hcontra => absurd hzero hcontra
    · exact fun hcontra => absurd hzero hcontra
  · have hmore : direct.depth - 1 ≠ 0 := by omega
    rw [if_neg hlast]
    constructor
    · exact hleft
    · exact fun hcontra => absurd hcontra hmore
    · exact fun _ => hpending.inside hdepth
    · exact fun _ => hpending.recorded hdepth

theorem writeStep_keeps :
    ObservedRun.Keeps writeStep directStep Groups Pending := by
  intro connection direct event hpending hgroups
  cases event with
  | openProcess ProcessHandle =>
    exact ⟨hpending.count_eq, hpending.outside, hpending.inside,
      hpending.recorded⟩
  | beginWriteProcessMemory => exact hpending.beginRound hgroups
  | WriteProcessMemory hProcess lpBaseAddress lpBuffer =>
    exact hpending.write hgroups
  | endWriteProcessMemory => exact hpending.endRound hgroups

theorem Pending.endRound_someWrites (hpending : Pending connection direct)
    (hgroups : Groups connection .endWriteProcessMemory)
    (hwrites : SomeWrites (writeStep connection .endWriteProcessMemory).2
      target address) : SomeWrites direct.round target address := by
  obtain ⟨hopen, hgroupable⟩ := hgroups
  have hcount := hpending.count_eq
  have hdepth : direct.depth ≠ 0 := by omega
  by_cases hlast : connection.WriteProcessMemoryBufferCount - 1 = 0
  · change SomeWrites (if _ then connection.grouped else []) _ _ at hwrites
    rw [if_pos hlast] at hwrites
    exact hpending.recorded hdepth target address
      (group_someWrites (hgroupable (by omega)) hwrites)
  · change SomeWrites (if _ then connection.grouped else []) _ _ at hwrites
    rw [if_neg hlast] at hwrites
    obtain ⟨_, hcontra, _⟩ := hwrites
    exact absurd hcontra not_mem_nil

structure Connection.Fresh (connection : Connection) : Prop where
  count_eq : connection.WriteProcessMemoryBufferCount = 0
  buffer_eq : connection.WriteProcessMemoryBuffer = []

theorem Connection.Fresh.pending (hfresh : connection.Fresh) :
    Pending connection ⟨connection.memories, 0, []⟩ := by
  constructor
  · exact hfresh.count_eq
  · exact fun _ => rfl
  · exact fun hcontra => absurd rfl hcontra
  · exact fun hcontra => absurd rfl hcontra

/-- In every run of calls that grouping gets right, the memories outside a
round are those of the direct writes in order, and what a round writes was
written in it. -/
theorem grouped_writes_eq_direct (connection : Connection)
    (hfresh : connection.Fresh) (events : List WriteEvent)
    (hgroups : ObservedRun.AllowedRun writeStep Groups connection events) :
    let reached := ObservedRun.final writeStep connection events
    let direct := ObservedRun.final directStep
      ⟨connection.memories, 0, []⟩ events
    (reached.WriteProcessMemoryBufferCount = 0 →
      reached.memories = direct.memories) ∧
    (Groups reached .endWriteProcessMemory →
      ∀ target address,
        SomeWrites (writeStep reached .endWriteProcessMemory).2
          target address →
        SomeWrites direct.round target address) := by
  have hpending :=
    writeStep_keeps.final_related hfresh.pending hgroups
  constructor
  · intro hcount
    apply hpending.outside
    have hsame := hpending.count_eq
    omega
  · intro hend target address hwrites
    exact hpending.endRound_someWrites hend hwrites

def zeroConnection : Connection where
  WriteProcessMemoryBufferCount := 0
  WriteProcessMemoryBuffer := []
  ProcessHandle := 0xce000001
  memories := fun _ _ => 0

def overlappingRound : List WriteEvent :=
  [.beginWriteProcessMemory, .beginWriteProcessMemory,
    .WriteProcessMemory 0xce000001 0x1000 [1, 2, 3],
    .endWriteProcessMemory,
    .WriteProcessMemory 0xce000001 0x1002 [4, 5],
    .endWriteProcessMemory]

theorem overlappingRound_groups :
    ObservedRun.AllowedRun writeStep Groups zeroConnection
      overlappingRound := by
  have hjoinable : Block.Joinable ⟨0xce000001, 0x1000, [1, 2, 3]⟩
      ⟨0xce000001, 0x1002, [4, 5]⟩ := by
    constructor <;> decide
  refine ⟨fun _ => rfl, fun _ => rfl, fun _ => rfl, ⟨by decide, ?_⟩,
    fun _ => rfl, ⟨by decide, ?_⟩, trivial⟩
  · intro hcontra
    exact absurd hcontra (by decide)
  · intro _
    refine ⟨?_, ?_⟩
    · change if _ then _ else _
      rw [if_pos (by decide)]
      exact ⟨hjoinable, fun _ hcontra => absurd hcontra not_mem_nil,
        trivial⟩
    · change if _ then _ else _
      rw [if_pos (by decide)]
      exact ⟨trivial, by
        change if _ then _ else _
        rw [if_neg (by decide)]
        trivial⟩

theorem grouped_writes_eq_direct_overlapping :
    (ObservedRun.final writeStep zeroConnection overlappingRound).memories =
      (ObservedRun.final directStep ⟨zeroConnection.memories, 0, []⟩
        overlappingRound).memories :=
  (grouped_writes_eq_direct zeroConnection ⟨rfl, rfl⟩ overlappingRound
    overlappingRound_groups).1 (by decide)

/-- The second, empty round writes the block of the first one again, over
what was written in between. -/
theorem second_round_writes_first :
    ¬ ((ObservedRun.final writeStep zeroConnection
          [.beginWriteProcessMemory,
            .WriteProcessMemory 0xce000001 0x1000 [1],
            .endWriteProcessMemory,
            .WriteProcessMemory 0xce000001 0x1000 [2],
            .beginWriteProcessMemory,
            .endWriteProcessMemory]).memories =
        (ObservedRun.final directStep ⟨zeroConnection.memories, 0, []⟩
          [.beginWriteProcessMemory,
            .WriteProcessMemory 0xce000001 0x1000 [1],
            .endWriteProcessMemory,
            .WriteProcessMemory 0xce000001 0x1000 [2],
            .beginWriteProcessMemory,
            .endWriteProcessMemory]).memories) := by
  intro hsame
  have hbyte := congrFun (congrFun hsame (.network 1)) 0x1000
  revert hbyte
  decide

end Network
end CheatEngine
