import CheatEngine.ByteMemory
import CheatEngine.HandleTable

/-!
# Memory writes of ceserver

ceserver writes to a process through `ptrace`, one word after the other.  The
last word, which may be needed in part only, is read and changed before it is
written.
-/

namespace CheatEngine
namespace CeserverWrites

open List ByteMemory
open HandleTable (Platform)

/-- The bytes from the address on up to the first that is not accessible. -/
def leading (accessible : ℕ → Bool) (address : ℕ) : ℕ → ℕ
  | 0 => 0
  | count + 1 =>
    if accessible address then leading accessible (address + 1) count + 1
    else 0

/-- `ptrace` of the kernel.  Which bytes it reads and writes is up to the
kernel, which also writes private pages that are read-only for the process.  A
word that cannot be written as a whole gives an error, and may have been
written up to its first byte that cannot.  `reached`: `ptrace` can attach to
the process, or finds it stopped. -/
structure Ptrace where
  reached : Bool
  canRead : ℕ → Bool
  canWrite : ℕ → Bool
  peekData : (ℕ → UInt8) → ℕ → ℕ → List UInt8
  pokeData : (ℕ → UInt8) → ℕ → List UInt8 → (ℕ → UInt8) × Bool
  reached_of_canWrite : ∀ address, canWrite address = true → reached = true
  canRead_of_canWrite : ∀ address, canWrite address = true →
    canRead address = true
  length_peekData : ∀ memory size address,
    (peekData memory size address).length = size
  peekData_whole : ∀ memory size address,
    (∀ i < size, canRead (address + i) = true) →
      peekData memory size address = load memory address size
  pokeData_whole : ∀ memory address word,
    (∀ i < word.length, canWrite (address + i) = true) →
      pokeData memory address word = (store memory address word, true)
  pokeData_refused : ∀ memory address word,
    ¬ (∀ i < word.length, canWrite (address + i) = true) →
      ∃ count ≤ leading canWrite address word.length,
        pokeData memory address word =
          (store memory address (word.take count), false)

/-- The process that is written to. -/
structure Target where
  memory : ℕ → UInt8
  ptrace : Ptrace
  isDebugged : Bool

namespace Target

variable (target : Target)

def canWrite (address : ℕ) : Bool := target.ptrace.canWrite address

def writableFrom (address count : ℕ) : ℕ :=
  leading target.canWrite address count

def peekData (size address : ℕ) : List UInt8 :=
  target.ptrace.peekData target.memory size address

def pokeData (address : ℕ) (word : List UInt8) : Target × Bool :=
  let poked := target.ptrace.pokeData target.memory address word
  ({ target with memory := poked.1 }, poked.2)

end Target

def sizeofLong : Platform → ℕ
  | .bits32 => 4
  | .bits64 => 8

section

variable (platform : Platform) (lpAddress : ℕ) (buffer : ℕ → UInt8) (size : ℕ)

/-- The words in front of the last one; the result of `ptrace` is not looked
at.  The comparison is `offset < size - sizeof(long int)`. -/
def pokeWords : ℕ → ℕ → ℕ → Target → ℕ × ℕ × Target
  | 0, offset, written, target => (offset, written, target)
  | turns + 1, offset, written, target =>
    if offset + sizeofLong platform < size then
      pokeWords turns (offset + sizeofLong platform)
        (written + sizeofLong platform)
        (target.pokeData (lpAddress + offset)
          (load buffer offset (sizeofLong platform))).1
    else (offset, written, target)

def newvalue (offset : ℕ) (target : Target) : List UInt8 :=
  load buffer offset (size - offset) ++
    (target.peekData (sizeofLong platform) (lpAddress + offset)).drop
      (size - offset)

def pokeRest (offset written : ℕ) (target : Target) : Target × ℕ :=
  if offset < size then
    let poked := target.pokeData (lpAddress + offset)
      (newvalue platform lpAddress buffer size offset target)
    (poked.1, if poked.2 then written + (size - offset) else written)
  else (target, written)

def writeBytes (target : Target) : Target × ℕ :=
  let (offset, written, target) :=
    pokeWords platform lpAddress buffer size size 0 0 target
  pokeRest platform lpAddress buffer size offset written target

def writeProcessMemoryDebug (target : Target) : Target × ℕ :=
  writeBytes platform lpAddress buffer size target

def writeProcessMemory (target : Target) : Target × ℕ :=
  if target.isDebugged then
    writeProcessMemoryDebug platform lpAddress buffer size target
  else if target.ptrace.reached then
    writeBytes platform lpAddress buffer size target
  else (target, 0)

end

/-- The bytes up to the first that cannot be written are those of the buffer,
no other byte has changed, and their number is returned. -/
structure IsExact (lpAddress : ℕ) (buffer : ℕ → UInt8) (size : ℕ)
    (before : Target) (result : Target × ℕ) : Prop where
  memory : result.1.memory = store before.memory lpAddress
    (load buffer 0 (before.writableFrom lpAddress size))
  written : result.2 = before.writableFrom lpAddress size

def lastWord (platform : Platform) (size : ℕ) : ℕ :=
  (size - 1) / sizeofLong platform * sizeofLong platform

/-- Every byte in front of the last word can be written, and so can all the
bytes of the last word or not even its first. -/
def WordsWritable (platform : Platform) (lpAddress size : ℕ)
    (target : Target) : Prop :=
  (∀ offset < lastWord platform size,
      target.canWrite (lpAddress + offset) = true) ∧
    ((∀ i < sizeofLong platform,
        target.canWrite (lpAddress + lastWord platform size + i) = true) ∨
      target.canWrite (lpAddress + lastWord platform size) = false)

/-! ## Stored bytes -/

variable (memory : ℕ → UInt8) (base : ℕ)

theorem store_nil : store memory base [] = memory := by
  funext address
  exact store_of_not_covers memory fun hcovers => by
    simp [Covers] at hcovers
    omega

theorem store_load_self {memory : ℕ → UInt8} (size : ℕ) :
    store memory base (load memory base size) = memory := by
  funext address
  by_cases hcovers : Covers base (load memory base size) address
  · obtain ⟨hle, hlt⟩ := hcovers
    rw [length_load] at hlt
    have hvalue : (load memory base size)[address - base]? =
        some (memory address) := by
      rw [getElem?_load memory base (by omega), Nat.add_sub_cancel' hle]
    exact store_of_covers memory hle hvalue
  · exact store_of_not_covers memory hcovers

theorem drop_load (size more : ℕ) :
    (load memory base (size + more)).drop size =
      load memory (base + size) more := by
  rw [load_add, drop_left' (length_load memory base size)]

theorem store_load_append (buffer : ℕ → UInt8) (offset more : ℕ) :
    store (store memory base (load buffer 0 offset)) (base + offset)
        (load buffer offset more) =
      store memory base (load buffer 0 (offset + more)) := by
  have happend := store_append memory base (load buffer 0 offset)
    (load buffer offset more)
  rw [length_load] at happend
  rw [happend, load_add, Nat.zero_add]

section

variable {accessible : ℕ → Bool} {address : ℕ}

theorem leading_le_of_not {offset : ℕ} :
    ∀ {address count : ℕ}, accessible (address + offset) = false →
      leading accessible address count ≤ offset := by
  induction offset with
  | zero =>
    intro address count hnot
    cases count with
    | zero => exact le_rfl
    | succ count =>
      rw [Nat.add_zero] at hnot
      rw [leading, if_neg (by rw [hnot]; exact Bool.false_ne_true)]
  | succ offset ih =>
    intro address count hnot
    cases count with
    | zero => exact Nat.zero_le _
    | succ count =>
      rw [leading]
      split
      · have hrest := @ih (address + 1) count (by
          rw [Nat.add_assoc, Nat.add_comm 1, hnot])
        exact Nat.succ_le_succ hrest
      · exact Nat.zero_le _

theorem leading_add {offset : ℕ} : ∀ {address : ℕ} (more : ℕ),
    (∀ i < offset, accessible (address + i) = true) →
      leading accessible address (offset + more) =
        offset + leading accessible (address + offset) more := by
  induction offset with
  | zero =>
    intro address more _
    rw [Nat.zero_add, Nat.zero_add, Nat.add_zero]
  | succ offset ih =>
    intro address more hall
    have hrest := @ih (address + 1) more fun i hi => by
      rw [Nat.add_assoc, Nat.add_comm 1]
      exact hall (i + 1) (by omega)
    rw [Nat.succ_add, leading,
      if_pos (by simpa using hall 0 (Nat.succ_pos offset)), hrest,
      Nat.add_right_comm, Nat.add_assoc address, Nat.add_comm 1]

theorem leading_eq {count : ℕ}
    (hall : ∀ i < count, accessible (address + i) = true) :
    leading accessible address count = count := by
  have hadd := leading_add 0 hall
  rw [Nat.add_zero] at hadd
  rw [hadd, leading, Nat.add_zero]

end

namespace Target

variable {target : Target} {address : ℕ} {word : List UInt8}

theorem pokeData_whole
    (hall : ∀ i < word.length, target.canWrite (address + i) = true) :
    target.pokeData address word =
      ({ target with memory := store target.memory address word }, true) := by
  rw [pokeData, target.ptrace.pokeData_whole _ _ _ hall]

theorem pokeData_refused (hword : word ≠ [])
    (hnot : target.canWrite address = false) :
    target.pokeData address word = (target, false) := by
  have hsome : ¬ ∀ i < word.length, target.canWrite (address + i) = true := by
    intro hall
    have hfirst := hall 0 (length_pos_iff.mpr hword)
    rw [Nat.add_zero, hnot] at hfirst
    cases hfirst
  obtain ⟨count, hcount, hpoked⟩ :=
    target.ptrace.pokeData_refused target.memory address word hsome
  have hzero : leading target.ptrace.canWrite address word.length ≤ 0 :=
    leading_le_of_not hnot
  obtain rfl := Nat.le_zero.mp (hcount.trans hzero)
  rw [pokeData, hpoked, take_zero, store_nil]

theorem pokeData_snd
    (hnot : ¬ ∀ i < word.length, target.canWrite (address + i) = true) :
    (target.pokeData address word).2 = false := by
  obtain ⟨count, -, hpoked⟩ :=
    target.ptrace.pokeData_refused target.memory address word hnot
  rw [pokeData, hpoked]

theorem peekData_whole {size : ℕ}
    (hall : ∀ i < size, target.canWrite (address + i) = true) :
    target.peekData size address = load target.memory address size :=
  target.ptrace.peekData_whole _ _ _ fun i hi =>
    target.ptrace.canRead_of_canWrite _ (hall i hi)

theorem length_peekData (size : ℕ) :
    (target.peekData size address).length = size :=
  target.ptrace.length_peekData _ _ _

end Target

variable {platform : Platform} {lpAddress : ℕ} {buffer : ℕ → UInt8} {size : ℕ}

theorem lastWord_le (platform : Platform) (size : ℕ) :
    lastWord platform size ≤ size ∧
      size ≤ lastWord platform size + sizeofLong platform := by
  cases platform <;> simp only [lastWord, sizeofLong] <;> omega

theorem lastWord_lt (hsize : 0 < size) : lastWord platform size < size := by
  cases platform <;> simp only [lastWord, sizeofLong] <;> omega

structure AtWord (platform : Platform) (size turns offset : ℕ) : Prop where
  whole : offset % sizeofLong platform = 0
  le : offset ≤ lastWord platform size
  turns : size ≤ offset + turns

theorem AtWord.next {turns offset : ℕ}
    (hat : AtWord platform size (turns + 1) offset)
    (hlt : offset + sizeofLong platform < size) :
    AtWord platform size turns (offset + sizeofLong platform) := by
  obtain ⟨hwhole, hle, hturns⟩ := hat
  cases platform <;> simp only [lastWord, sizeofLong] at * <;>
    exact ⟨by simp only [sizeofLong]; omega,
      by simp only [lastWord, sizeofLong]; omega, by omega⟩

theorem AtWord.last {turns offset : ℕ}
    (hat : AtWord platform size turns offset)
    (hstop : turns = 0 ∨ ¬ offset + sizeofLong platform < size) :
    offset = lastWord platform size := by
  obtain ⟨hwhole, hle, hturns⟩ := hat
  cases platform <;> simp only [lastWord, sizeofLong] at * <;> omega

theorem atWord_zero : AtWord platform size size 0 :=
  ⟨Nat.zero_mod _, Nat.zero_le _, by omega⟩

theorem pokeWords_counts (turns : ℕ) : ∀ {offset written : ℕ}
    {target : Target}, AtWord platform size turns offset →
    ∃ memory,
      pokeWords platform lpAddress buffer size turns offset written target =
        (lastWord platform size,
          written + (lastWord platform size - offset),
          { target with memory }) := by
  induction turns with
  | zero =>
    intro offset written target hat
    obtain rfl := hat.last (.inl rfl)
    exact ⟨target.memory, by rw [pokeWords, Nat.sub_self, Nat.add_zero]⟩
  | succ turns ih =>
    intro offset written target hat
    rw [pokeWords]
    split
    case isTrue hlt =>
      have hnext := hat.next hlt
      obtain ⟨memory, hmemory⟩ := @ih (offset + sizeofLong platform)
        (written + sizeofLong platform)
        (target.pokeData (lpAddress + offset)
          (load buffer offset (sizeofLong platform))).1 hnext
      refine ⟨memory, ?_⟩
      have hle := hnext.le
      rw [hmemory, Target.pokeData, Nat.add_assoc,
        show sizeofLong platform + (lastWord platform size -
          (offset + sizeofLong platform)) =
            lastWord platform size - offset by omega]
    case isFalse hnot =>
      obtain rfl := hat.last (.inr hnot)
      exact ⟨target.memory, by rw [Nat.sub_self, Nat.add_zero]⟩

theorem pokeWords_stores {target : Target}
    (hall : ∀ offset < lastWord platform size,
      target.canWrite (lpAddress + offset) = true) (turns : ℕ) :
    ∀ {offset written : ℕ}, AtWord platform size turns offset →
    (pokeWords platform lpAddress buffer size turns offset written
      { target with
        memory := store target.memory lpAddress (load buffer 0 offset) }).2.2 =
      { target with
        memory := store target.memory lpAddress
          (load buffer 0 (lastWord platform size)) } := by
  induction turns with
  | zero =>
    intro offset written hat
    rw [← hat.last (.inl rfl)]
    rfl
  | succ turns ih =>
    intro offset written hat
    rw [pokeWords]
    split
    case isTrue hlt =>
      have hnext := hat.next hlt
      have hle := hnext.le
      rw [Target.pokeData_whole]
      · simp only
        rw [store_load_append]
        exact ih hnext
      · intro i hi
        rw [length_load] at hi
        rw [Nat.add_assoc]
        exact hall (offset + i) (by omega)
    case isFalse hnot =>
      rw [← hat.last (.inr hnot)]

variable {target : Target}

theorem writableFrom_last (hall : ∀ offset < lastWord platform size,
      target.canWrite (lpAddress + offset) = true) :
    target.writableFrom lpAddress size = lastWord platform size +
      target.writableFrom (lpAddress + lastWord platform size)
        (size - lastWord platform size) := by
  have hle := (lastWord_le platform size).1
  have hadd := leading_add (size - lastWord platform size) hall
  rwa [Nat.add_sub_cancel' hle] at hadd

def beforeRest (lpAddress : ℕ) (buffer : ℕ → UInt8) (offset : ℕ)
    (target : Target) : Target :=
  { target with
    memory := store target.memory lpAddress (load buffer 0 offset) }

section

variable {offset : ℕ} (hlt : offset < size)

theorem length_newvalue (hle : size ≤ offset + sizeofLong platform) :
    (newvalue platform lpAddress buffer size offset target).length =
      sizeofLong platform := by
  rw [newvalue, length_append, length_load, length_drop,
    Target.length_peekData]
  omega

theorem store_newvalue (hle : size ≤ offset + sizeofLong platform)
    (hword : ∀ i < sizeofLong platform,
      target.canWrite (lpAddress + offset + i) = true) :
    store target.memory (lpAddress + offset)
        (newvalue platform lpAddress buffer size offset target) =
      store target.memory (lpAddress + offset)
        (load buffer offset (size - offset)) := by
  obtain ⟨more, hmore⟩ := Nat.exists_eq_add_of_le
    (show size - offset ≤ sizeofLong platform by omega)
  have hkept : load target.memory (lpAddress + offset + (size - offset))
      more =
        load (store target.memory (lpAddress + offset)
          (load buffer offset (size - offset)))
          (lpAddress + offset + (size - offset)) more := by
    refine load_congr fun index _ => ?_
    refine (store_of_not_covers _ fun hcovers => ?_).symm
    have hlt := hcovers.2
    rw [length_load] at hlt
    omega
  rw [newvalue, Target.peekData_whole hword, hmore, drop_load, ← store_append,
    length_load, hkept, store_load_self]

include hlt

theorem pokeRest_whole (hle : size ≤ offset + sizeofLong platform)
    (hword : ∀ i < sizeofLong platform,
      target.canWrite (lpAddress + offset + i) = true) (written : ℕ) :
    pokeRest platform lpAddress buffer size offset written target =
      ({ target with
          memory := store target.memory (lpAddress + offset)
            (load buffer offset (size - offset)) },
        written + (size - offset)) := by
  have hlength := @length_newvalue platform lpAddress buffer size target
    offset hle
  rw [pokeRest, if_pos hlt, Target.pokeData_whole (by rwa [hlength]),
    store_newvalue hle hword]
  rfl

theorem pokeRest_refused (hle : size ≤ offset + sizeofLong platform)
    (hnot : target.canWrite (lpAddress + offset) = false) (written : ℕ) :
    pokeRest platform lpAddress buffer size offset written target =
      (target, written) := by
  have hne : newvalue platform lpAddress buffer size offset target ≠ [] := by
    rw [← length_pos_iff, length_newvalue hle]
    omega
  rw [pokeRest, if_pos hlt, Target.pokeData_refused hne hnot]
  rfl

theorem pokeRest_counts (hle : size ≤ offset + sizeofLong platform)
    (hnot : ¬ ∀ i < sizeofLong platform,
      target.canWrite (lpAddress + offset + i) = true) (written : ℕ) :
    (pokeRest platform lpAddress buffer size offset written target).2 =
      written := by
  rw [pokeRest, if_pos hlt]
  simp only
  rw [Target.pokeData_snd (by rwa [length_newvalue hle])]
  rfl

end

theorem pokeRest_ge (offset written : ℕ) :
    written ≤
      (pokeRest platform lpAddress buffer size offset written target).2 := by
  rw [pokeRest]
  split
  · simp only
    split <;> omega
  · exact le_rfl

/-! ## The whole write -/

theorem writeBytes_eq : ∃ memory,
    writeBytes platform lpAddress buffer size target =
      pokeRest platform lpAddress buffer size (lastWord platform size)
        (lastWord platform size) { target with memory } := by
  obtain ⟨memory, hwords⟩ := @pokeWords_counts platform lpAddress buffer size
    size 0 0 target atWord_zero
  refine ⟨memory, ?_⟩
  rw [writeBytes, hwords, Nat.sub_zero, Nat.zero_add]

theorem writeBytes_stores (hall : ∀ offset < lastWord platform size,
      target.canWrite (lpAddress + offset) = true) :
    writeBytes platform lpAddress buffer size target =
      pokeRest platform lpAddress buffer size (lastWord platform size)
        (lastWord platform size)
        (beforeRest lpAddress buffer (lastWord platform size) target) := by
  obtain ⟨memory, hwords⟩ := @pokeWords_counts platform lpAddress buffer size
    size 0 0 target atWord_zero
  have hstores := @pokeWords_stores platform lpAddress buffer size target
    hall size 0 0 atWord_zero
  have hnil : store target.memory lpAddress (load buffer 0 0) =
      target.memory := store_nil _ _
  rw [hnil] at hstores
  have hmemory : ({ target with memory } : Target) =
      beforeRest lpAddress buffer (lastWord platform size) target := by
    rw [beforeRest, ← hstores]
    exact (congrArg (fun result => result.2.2) hwords).symm
  rw [writeBytes, hwords, hmemory, Nat.sub_zero, Nat.zero_add]

theorem isExact_of_wordsWritable (hsize : 0 < size)
    (hwords : WordsWritable platform lpAddress size target) :
    IsExact lpAddress buffer size target
      (writeBytes platform lpAddress buffer size target) := by
  obtain ⟨hfront, hlast⟩ := hwords
  have hlt := @lastWord_lt platform size hsize
  have hle := (lastWord_le platform size).2
  have hcount := writableFrom_last hfront
  rw [writeBytes_stores hfront]
  rcases hlast with hword | hnot
  · have hrest : target.writableFrom (lpAddress + lastWord platform size)
        (size - lastWord platform size) = size - lastWord platform size :=
      leading_eq fun i hi => hword i (by omega)
    rw [hrest, Nat.add_sub_cancel' hlt.le] at hcount
    rw [@pokeRest_whole platform lpAddress buffer size
      (beforeRest lpAddress buffer (lastWord platform size) target)
      (lastWord platform size) hlt hle hword]
    refine ⟨?_, ?_⟩
    · rw [hcount]
      simp only [beforeRest]
      rw [store_load_append, Nat.add_sub_cancel' hlt.le]
    · rw [hcount]
      exact Nat.add_sub_cancel' hlt.le
  · have hrest : target.writableFrom (lpAddress + lastWord platform size)
        (size - lastWord platform size) = 0 :=
      Nat.le_zero.mp (leading_le_of_not (by rwa [Nat.add_zero]))
    rw [hrest, Nat.add_zero] at hcount
    rw [@pokeRest_refused platform lpAddress buffer size
      (beforeRest lpAddress buffer (lastWord platform size) target)
      (lastWord platform size) hlt hle hnot]
    exact ⟨by rw [hcount]; rfl, hcount.symm⟩

theorem wordsWritable_of_isExact (hsize : 0 < size)
    (hexact : IsExact lpAddress buffer size target
      (writeBytes platform lpAddress buffer size target)) :
    WordsWritable platform lpAddress size target := by
  have hlt := @lastWord_lt platform size hsize
  have hle := (lastWord_le platform size).2
  obtain ⟨memory, hwrite⟩ := @writeBytes_eq platform lpAddress buffer size
    target
  have hwritten := hexact.written
  rw [hwrite] at hwritten
  have hge := @pokeRest_ge platform lpAddress buffer size
    { target with memory } (lastWord platform size) (lastWord platform size)
  have hfront : ∀ offset < lastWord platform size,
      target.canWrite (lpAddress + offset) = true := by
    intro offset hoffset
    cases hcan : target.canWrite (lpAddress + offset) with
    | true => rfl
    | false =>
      have hfew : target.writableFrom lpAddress size ≤ offset :=
        leading_le_of_not hcan
      omega
  refine ⟨hfront, ?_⟩
  by_cases hword : ∀ i < sizeofLong platform,
      target.canWrite (lpAddress + lastWord platform size + i) = true
  · exact .inl hword
  · right
    rw [@pokeRest_counts platform lpAddress buffer size
        { target with memory } (lastWord platform size) hlt hle hword,
      writableFrom_last hfront] at hwritten
    cases hcan : target.canWrite (lpAddress + lastWord platform size) with
    | false => rfl
    | true =>
      obtain ⟨count, hcount⟩ := Nat.exists_eq_add_of_lt hlt
      have hsome : size - lastWord platform size = count + 1 := by omega
      rw [hsome, Target.writableFrom, leading, if_pos hcan] at hwritten
      omega

theorem isExact_empty (platform : Platform) (lpAddress : ℕ)
    (buffer : ℕ → UInt8) (target : Target) :
    IsExact lpAddress buffer 0 target
      (writeBytes platform lpAddress buffer 0 target) :=
  ⟨(store_nil _ _).symm, rfl⟩

theorem isExact_unreached (hreached : target.ptrace.reached = false) :
    IsExact lpAddress buffer size target (target, 0) := by
  have hzero : target.writableFrom lpAddress size = 0 := by
    refine Nat.le_zero.mp (leading_le_of_not ?_)
    by_contra hwrite
    rw [target.ptrace.reached_of_canWrite _
      (Bool.eq_true_of_not_eq_false hwrite)] at hreached
    cases hreached
  exact ⟨by rw [hzero]; exact (store_nil _ _).symm, hzero.symm⟩

theorem writeBytes_isExact_iff (platform : Platform) (lpAddress : ℕ)
    (buffer : ℕ → UInt8) (size : ℕ) (target : Target) :
    IsExact lpAddress buffer size target
        (writeBytes platform lpAddress buffer size target) ↔
      size = 0 ∨ WordsWritable platform lpAddress size target := by
  rcases Nat.eq_zero_or_pos size with rfl | hsize
  · exact ⟨fun _ => .inl rfl, fun _ => isExact_empty _ _ _ _⟩
  · constructor
    · exact fun hexact => .inr (wordsWritable_of_isExact hsize hexact)
    · rintro (rfl | hwords)
      · exact absurd hsize (lt_irrefl 0)
      · exact isExact_of_wordsWritable hsize hwords

/-- A write is exact when there is nothing to write, when the process cannot
be attached to, and when all words up to the last one can be written as a
whole, the last one perhaps not at all. -/
theorem writes_isExact_iff (platform : Platform) (lpAddress : ℕ)
    (buffer : ℕ → UInt8) (size : ℕ) (target : Target) :
    (IsExact lpAddress buffer size target
        (writeProcessMemoryDebug platform lpAddress buffer size target) ↔
      size = 0 ∨ WordsWritable platform lpAddress size target) ∧
    (IsExact lpAddress buffer size target
        (writeProcessMemory platform lpAddress buffer size target) ↔
      size = 0 ∨ (target.isDebugged = false ∧ target.ptrace.reached = false) ∨
        WordsWritable platform lpAddress size target) := by
  have hbytes := writeBytes_isExact_iff platform lpAddress buffer size target
  refine ⟨hbytes, ?_⟩
  rw [writeProcessMemory, writeProcessMemoryDebug]
  cases hdebugged : target.isDebugged with
  | true => simpa using hbytes
  | false =>
    cases hreached : target.ptrace.reached with
    | true => simpa using hbytes
    | false =>
      simp only [Bool.false_eq_true, if_false, and_self, true_or,
        or_true, iff_true]
      exact isExact_unreached hreached

/-- A kernel that copies each word up to its first byte that is not mapped,
whatever the protection of the pages. -/
def copyingKernel (mapped : ℕ → Bool) : Ptrace where
  reached := true
  canRead := mapped
  canWrite := mapped
  peekData memory size address :=
    if leading mapped address size = size then load memory address size
    else List.replicate size 0xff
  pokeData memory address word :=
    (store memory address (word.take (leading mapped address word.length)),
      leading mapped address word.length = word.length)
  reached_of_canWrite _ _ := rfl
  canRead_of_canWrite _ hmapped := hmapped
  length_peekData memory size address := by
    split
    · exact length_load _ _ _
    · exact length_replicate
  peekData_whole memory size address hall := if_pos (leading_eq hall)
  pokeData_whole memory address word hall := by
    simp [leading_eq hall]
  pokeData_refused memory address word hnot := by
    refine ⟨_, le_rfl, Prod.ext rfl (decide_eq_false fun heq => hnot ?_)⟩
    intro i hi
    by_contra hmapped
    have hfew : leading mapped address word.length ≤ i :=
      leading_le_of_not (Bool.eq_false_of_not_eq_true hmapped)
    omega

def lastPage : Target where
  memory _ := 0
  ptrace := copyingKernel fun address => decide (address < 4096)
  isDebugged := false

theorem not_isExact_lastPage :
    ¬ IsExact 4092 (fun _ => 1) 4 lastPage
      (writeProcessMemory .bits64 4092 (fun _ => 1) 4 lastPage) := by
  intro hexact
  have hwritten := hexact.written
  have hcount : lastPage.writableFrom 4092 4 = 4 := by decide
  rw [hcount] at hwritten
  exact absurd hwritten (by decide)

/-- Two words of memory that is not mapped are counted as one. -/
example :
    (writeProcessMemory .bits64 4096 (fun _ => 1) 16 lastPage).2 = 8 := by
  decide

end CeserverWrites
end CheatEngine
