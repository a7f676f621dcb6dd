import Mathlib.Tactic

/-!
# Storing byte blocks in a memory

A memory gives a value to every address.  Storing a block replaces the values
from its base address on.  Blocks that have no address in common can be
stored in any order.
-/

namespace CheatEngine.ByteMemory

open List

variable {Byte : Type*}

def store (memory : ℕ → Byte) (base : ℕ) (bytes : List Byte) : ℕ → Byte :=
  fun address =>
    if base ≤ address then (bytes[address - base]?).getD (memory address)
    else memory address

def load (memory : ℕ → Byte) (base size : ℕ) : List Byte :=
  (List.range size).map fun index => memory (base + index)

variable {bytes : List Byte} (memory : ℕ → Byte) (base : ℕ)

@[simp]
theorem length_load (size : ℕ) : (load memory base size).length = size := by
  simp [load]

theorem getElem?_load {size index : ℕ} (hindex : index < size) :
    (load memory base size)[index]? = some (memory (base + index)) := by
  rw [load, getElem?_map, getElem?_range hindex, Option.map_some]

theorem load_add (size more : ℕ) :
    load memory base (size + more) =
      load memory base size ++ load memory (base + size) more := by
  simp only [load, range_add, map_append, map_map]
  congr 1
  apply map_congr_left
  intro index _
  simp [Nat.add_assoc]

def Covers (base : ℕ) (bytes : List Byte) (address : ℕ) : Prop :=
  base ≤ address ∧ address < base + bytes.length

theorem store_of_not_covers {base address : ℕ}
    (hoff : ¬ Covers base bytes address) :
    store memory base bytes address = memory address := by
  unfold store
  split
  · rename_i hle
    rw [getElem?_eq_none]
    · rfl
    · have hend : ¬ address < base + bytes.length :=
        fun hlt => hoff ⟨hle, hlt⟩
      omega
  · rfl

theorem store_of_covers {base address : ℕ} {value : Byte}
    (hle : base ≤ address) (hvalue : bytes[address - base]? = some value) :
    store memory base bytes address = value := by
  rw [store, if_pos hle, hvalue, Option.getD_some]

theorem exists_getElem?_of_covers {base address : ℕ}
    (hcovers : Covers base bytes address) :
    ∃ value, bytes[address - base]? = some value := by
  obtain ⟨hle, hlt⟩ := hcovers
  have hindex : address - base < bytes.length := by omega
  exact ⟨bytes[address - base], getElem?_eq_getElem hindex⟩

theorem load_store_take {size : ℕ} (hsize : size ≤ bytes.length) :
    load (store memory base bytes) base size = bytes.take size := by
  apply ext_getElem
  · rw [length_load, length_take, Nat.min_eq_left hsize]
  · intro index hload htake
    rw [length_load] at hload
    have hindex : index < bytes.length := hload.trans_le hsize
    have hvalue : bytes[base + index - base]? = some bytes[index] := by
      rw [Nat.add_sub_cancel_left, getElem?_eq_getElem hindex]
    simp only [load, getElem_map, getElem_range, getElem_take]
    exact store_of_covers _ (Nat.le_add_right _ _) hvalue

theorem load_congr {memory other : ℕ → Byte} {base size : ℕ}
    (hsame : ∀ index < size, memory (base + index) = other (base + index)) :
    load memory base size = load other base size := by
  apply map_congr_left
  intro index hindex
  exact hsame index (mem_range.mp hindex)

theorem store_append (bytes more : List Byte) :
    store (store memory base bytes) (base + bytes.length) more =
      store memory base (bytes ++ more) := by
  funext address
  by_cases hfirst : Covers base bytes address
  · obtain ⟨value, hvalue⟩ := exists_getElem?_of_covers hfirst
    have hsecond : ¬ Covers (base + bytes.length) more address :=
      fun hcovers => absurd hcovers.1 (Nat.not_le.mpr hfirst.2)
    rw [store_of_not_covers _ hsecond, store_of_covers _ hfirst.1 hvalue]
    symm
    apply store_of_covers _ hfirst.1
    obtain ⟨hle, hlt⟩ := hfirst
    rw [getElem?_append_left (by omega), hvalue]
  · by_cases hle : base + bytes.length ≤ address
    · have hbase : base ≤ address := by omega
      rw [store, if_pos hle, store_of_not_covers _ hfirst, store,
        if_pos hbase, getElem?_append_right (by omega), Nat.sub_sub]
    · have hoff : ¬ Covers (base + bytes.length) more address :=
        fun hcovers => hle hcovers.1
      have hbase : ¬ base ≤ address :=
        fun hle' => hfirst ⟨hle', Nat.not_le.mp hle⟩
      rw [store_of_not_covers _ hoff, store_of_not_covers _ hfirst, store,
        if_neg hbase]

theorem store_comm {base other : ℕ} {otherBytes : List Byte}
    (hdisjoint : ∀ address, Covers base bytes address →
      ¬ Covers other otherBytes address) :
    store (store memory base bytes) other otherBytes =
      store (store memory other otherBytes) base bytes := by
  funext address
  by_cases hfirst : Covers base bytes address
  · obtain ⟨value, hvalue⟩ := exists_getElem?_of_covers hfirst
    rw [store_of_not_covers _ (hdisjoint address hfirst),
      store_of_covers _ hfirst.1 hvalue, store_of_covers _ hfirst.1 hvalue]
  · rw [store_of_not_covers _ hfirst]
    by_cases hsecond : Covers other otherBytes address
    · obtain ⟨value, hvalue⟩ := exists_getElem?_of_covers hsecond
      rw [store_of_covers _ hsecond.1 hvalue,
        store_of_covers _ hsecond.1 hvalue]
    · rw [store_of_not_covers _ hsecond, store_of_not_covers _ hsecond,
        store_of_not_covers _ hfirst]

end CheatEngine.ByteMemory
