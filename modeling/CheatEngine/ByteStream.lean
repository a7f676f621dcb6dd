import Mathlib.Tactic

/-!
# Byte streams and exact readers

Writers produce lists of bytes and readers are state-passing functions on the
bytes that are still unread.  The relation `Reads` says that a reader consumes
exactly a given block, whatever follows it on the stream, and returns a given
value.  Round trips and framing results are derivations with the rules below;
no later proof opens a reader.
-/

namespace CheatEngine.ByteStream

open List

def leBytes : ℕ → ℕ → List UInt8
  | 0, _ => []
  | width + 1, n => UInt8.ofNat (n % 256) :: leBytes width (n / 256)

def leValue (block : List UInt8) : ℕ :=
  block.foldr (fun byte value => byte.toNat + 256 * value) 0

@[simp] theorem leBytes_length (width n : ℕ) :
    (leBytes width n).length = width := by
  induction width generalizing n with
  | zero => rfl
  | succ width ih => simp [leBytes, ih]

theorem leValue_leBytes (width n : ℕ) :
    leValue (leBytes width n) = n % 256 ^ width := by
  induction width generalizing n with
  | zero => simp [leBytes, leValue, Nat.mod_one]
  | succ width ih =>
    have hrest : leValue (leBytes width (n / 256)) =
        n / 256 % 256 ^ width := ih (n / 256)
    have hhead : (UInt8.ofNat (n % 256)).toNat = n % 256 := by
      simp
    have hsplit : n % 256 ^ (width + 1) =
        n % 256 + 256 * (n / 256 % 256 ^ width) := by
      rw [pow_succ, Nat.mul_comm, Nat.mod_mul]
    calc
      leValue (leBytes (width + 1) n) =
          (UInt8.ofNat (n % 256)).toNat +
            256 * leValue (leBytes width (n / 256)) := rfl
      _ = n % 256 + 256 * (n / 256 % 256 ^ width) := by
          rw [hhead, hrest]
      _ = n % 256 ^ (width + 1) := hsplit.symm

def writeByte (value : UInt8) : List UInt8 := [value]

def writeDWord (value : UInt32) : List UInt8 := leBytes 4 value.toNat

def writeQWord (value : UInt64) : List UInt8 := leBytes 8 value.toNat

@[simp] theorem writeByte_length (value : UInt8) :
    (writeByte value).length = 1 := rfl

@[simp] theorem writeDWord_length (value : UInt32) :
    (writeDWord value).length = 4 := by
  simp [writeDWord]

@[simp] theorem writeQWord_length (value : UInt64) :
    (writeQWord value).length = 8 := by
  simp [writeQWord]

theorem ofNat_leValue_writeDWord (value : UInt32) :
    UInt32.ofNat (leValue (writeDWord value)) = value := by
  rw [writeDWord, leValue_leBytes]
  simp

theorem ofNat_leValue_writeQWord (value : UInt64) :
    UInt64.ofNat (leValue (writeQWord value)) = value := by
  rw [writeQWord, leValue_leBytes]
  simp

/-! ## Readers -/

abbrev Reader (α : Type) := StateT (List UInt8) (Except String) α

/-- `TStream.ReadBuffer`: the whole block or an exception. -/
def readBuffer (size : ℕ) : Reader (List UInt8) := fun unread =>
  if size ≤ unread.length then
    .ok (unread.take size, unread.drop size)
  else
    .error "Stream read error"

def readByte : Reader UInt8 := do
  let block ← readBuffer 1
  return UInt8.ofNat (leValue block)

def readDWord : Reader UInt32 := do
  let block ← readBuffer 4
  return UInt32.ofNat (leValue block)

def readQWord : Reader UInt64 := do
  let block ← readBuffer 8
  return UInt64.ofNat (leValue block)

def readMany {α : Type} (reader : Reader α) : ℕ → Reader (List α)
  | 0 => return []
  | count + 1 => do
      let head ← reader
      let rest ← readMany reader count
      return head :: rest

/-- The reader consumes exactly `block` and returns `value`, for every
continuation of the stream. -/
def Reads {α : Type} (reader : Reader α) (block : List UInt8) (value : α) :
    Prop :=
  ∀ unread, reader (block ++ unread) = .ok (value, unread)

variable {α β : Type} {reader : Reader α} {block : List UInt8}

theorem reads_pure (value : α) : Reads (pure value : Reader α) [] value := by
  intro unread
  rfl

theorem Reads.bind {next : α → Reader β} {first second : List UInt8}
    {value : α} {result : β} (hfirst : Reads reader first value)
    (hsecond : Reads (next value) second result) :
    Reads (reader >>= next) (first ++ second) result := by
  intro unread
  have hrun : (reader >>= next) (first ++ second ++ unread) =
      (reader (first ++ (second ++ unread)) >>=
        fun pair => next pair.1 pair.2) := by
    rw [append_assoc]
    rfl
  rw [hrun, hfirst (second ++ unread)]
  exact hsecond unread

theorem Reads.bind_run {value : α} (hread : Reads reader block value)
    (next : α → Reader β) (unread : List UInt8) :
    (reader >>= next) (block ++ unread) = next value unread := by
  change (reader (block ++ unread) >>= fun pair => next pair.1 pair.2) = _
  rw [hread unread]
  rfl

theorem Reads.bind_nil {next : α → Reader β} {value : α} {result : β}
    (hfirst : Reads reader block value)
    (hsecond : Reads (next value) [] result) :
    Reads (reader >>= next) block result := by
  have hbind := hfirst.bind hsecond
  rwa [append_nil] at hbind

theorem Reads.bind_pure {α β : Type} {reader : Reader α} {f : α → β}
    {block : List UInt8} {value : α} (hread : Reads reader block value) :
    Reads (do let a ← reader; return f a) block (f value) := by
  have hbind : Reads (reader >>= fun a => (pure (f a) : Reader β))
      (block ++ []) (f value) :=
    hread.bind (reads_pure (f value))
  simpa using hbind

def Fails {α : Type} (reader : Reader α) (block : List UInt8) : Prop :=
  ∀ unread, ∃ message, reader (block ++ unread) = .error message

theorem Fails.bind {next : α → Reader β} (hfails : Fails reader block) :
    Fails (reader >>= next) block := by
  intro unread
  obtain ⟨message, herror⟩ := hfails unread
  refine ⟨message, ?_⟩
  change (reader (block ++ unread) >>= _) = _
  rw [herror]
  rfl

theorem Fails.append (hfails : Fails reader block) (more : List UInt8) :
    Fails reader (block ++ more) := by
  intro unread
  rw [append_assoc]
  exact hfails (more ++ unread)

theorem Reads.bind_fails {next : α → Reader β} {first second : List UInt8}
    {value : α} (hfirst : Reads reader first value)
    (hsecond : Fails (next value) second) :
    Fails (reader >>= next) (first ++ second) := by
  intro unread
  obtain ⟨message, herror⟩ := hsecond unread
  refine ⟨message, ?_⟩
  rw [append_assoc]
  change (reader (first ++ (second ++ unread)) >>= _) = _
  rw [hfirst (second ++ unread)]
  exact herror

theorem reads_readBuffer (block : List UInt8) :
    Reads (readBuffer block.length) block block := by
  intro unread
  simp [readBuffer]

theorem reads_readByte (value : UInt8) :
    Reads readByte (writeByte value) value := by
  have hread := (reads_readBuffer (writeByte value)).bind_pure
    (f := fun block => UInt8.ofNat (leValue block))
  have hvalue : UInt8.ofNat (leValue (writeByte value)) = value := by
    simp [writeByte, leValue]
  rw [hvalue] at hread
  exact hread

theorem reads_readDWord (value : UInt32) :
    Reads readDWord (writeDWord value) value := by
  have hread := (reads_readBuffer (writeDWord value)).bind_pure
    (f := fun block => UInt32.ofNat (leValue block))
  rw [ofNat_leValue_writeDWord, writeDWord_length] at hread
  exact hread

theorem reads_readQWord (value : UInt64) :
    Reads readQWord (writeQWord value) value := by
  have hread := (reads_readBuffer (writeQWord value)).bind_pure
    (f := fun block => UInt64.ofNat (leValue block))
  rw [ofNat_leValue_writeQWord, writeQWord_length] at hread
  exact hread

theorem reads_readMany_map {reader : Reader β} {write : α → List UInt8}
    {decode : α → β} (values : List α)
    (hread : ∀ value ∈ values, Reads reader (write value) (decode value)) :
    Reads (readMany reader values.length) (values.flatMap write)
      (values.map decode) := by
  induction values with
  | nil => exact reads_pure []
  | cons head rest ih =>
    have hrest := ih fun value hvalue =>
      hread value (mem_cons_of_mem head hvalue)
    simp only [length_cons, flatMap_cons, readMany, map_cons]
    exact (hread head (by simp)).bind hrest.bind_pure

theorem reads_readMany {write : α → List UInt8}
    (hread : ∀ value, Reads reader (write value) value) (values : List α) :
    Reads (readMany reader values.length) (values.flatMap write) values := by
  have hmap : Reads (readMany reader values.length) (values.flatMap write)
      (values.map id) :=
    reads_readMany_map values fun value _ => hread value
  rw [map_id] at hmap
  exact hmap

/-- `TStream.Read`: at most the given number of bytes, never an exception. -/
def readUpTo (size : ℕ) : Reader (List UInt8) := fun unread =>
  .ok (unread.take size, unread.drop size)

/-- What `Read` leaves in a dword that was zero before. -/
def readDWordUpTo : Reader UInt32 := do
  let block ← readUpTo 4
  return UInt32.ofNat (leValue block)

def readQWordUpTo : Reader UInt64 := do
  let block ← readUpTo 8
  return UInt64.ofNat (leValue block)

theorem reads_readUpTo (block : List UInt8) :
    Reads (readUpTo block.length) block block := by
  intro unread
  simp [readUpTo]

theorem reads_readDWordUpTo (value : UInt32) :
    Reads readDWordUpTo (writeDWord value) value := by
  have hread := (reads_readUpTo (writeDWord value)).bind_pure
    (f := fun block => UInt32.ofNat (leValue block))
  rw [ofNat_leValue_writeDWord, writeDWord_length] at hread
  exact hread

theorem reads_readQWordUpTo (value : UInt64) :
    Reads readQWordUpTo (writeQWord value) value := by
  have hread := (reads_readUpTo (writeQWord value)).bind_pure
    (f := fun block => UInt64.ofNat (leValue block))
  rw [ofNat_leValue_writeQWord, writeQWord_length] at hread
  exact hread

end CheatEngine.ByteStream
