import Mathlib.Tactic

/-!
# The handle table of ceserver

Handles are positions in an array that is allocated by the first call, and
grows when no entry is free.  New memory holds what was there before.
-/

namespace CheatEngine.HandleTable

open List

structure HandleListEntry where
  type : UInt32
  pointer : UInt64
deriving DecidableEq, Repr

def htEmpty : UInt32 := 0

/-- What the bytes of `memset` make of an entry. -/
def zeroed : HandleListEntry := ⟨0, 0⟩

inductive Platform
  | bits32
  | bits64
deriving DecidableEq, Repr

def sizeofHandleListEntry : Platform → ℕ
  | .bits32 => 8
  | .bits64 => 16

/-- The entries up to `HandleList_max`; none as long as `HandleList` is
`NULL`. -/
abbrev HandleList := List HandleListEntry

variable (platform : Platform)

/-- The first array: `memset` clears 256 entries of it. -/
def initialHandleList (memory : ℕ → HandleListEntry) : HandleList :=
  (List.range (4096 / sizeofHandleListEntry platform)).map fun i =>
    if i < 256 then zeroed else memory i

/-- The new half of an array of `size` entries: `memset` clears `size` bytes
of it. -/
def newHandleList (memory : ℕ → HandleListEntry) (size : ℕ) : HandleList :=
  (List.range size).map fun i =>
    if i < size / sizeofHandleListEntry platform then zeroed else memory i

def findEmpty (handleList : HandleList) : Option ℕ :=
  (List.range' 1 (handleList.length - 1)).find? fun i =>
    handleList[i]?.any fun entry => entry.type = htEmpty

/-- The new list and the handle.  `memory` is what the allocated block holds.
No result: `HandleList_max` overflows. -/
def createHandleFromPointer (memory : ℕ → HandleListEntry) (p : UInt64)
    (type : UInt32) (handleList : HandleList) : Option (HandleList × ℕ) :=
  let handleList :=
    if handleList = [] then initialHandleList platform memory else handleList
  match findEmpty handleList with
  | some i => some (handleList.set i ⟨type, p⟩, i)
  | none =>
    let i := handleList.length
    if i * 2 < 2 ^ 31 then
      let grown := handleList ++ newHandleList platform memory i
      some (grown.set i ⟨type, p⟩, i)
    else
      none

/-- The entry at an index below `HandleList_max`.  No result: the index lies
before the array. -/
def entryAt (handleList : HandleList) (handle : ℤ) : Option HandleListEntry :=
  if handle < 0 then none else handleList[handle.toNat]?

def getPointerFromHandle (handleList : HandleList) (handle : ℤ) :
    Option UInt64 :=
  if handle < handleList.length then
    (entryAt handleList handle).map fun entry =>
      if entry.type ≠ htEmpty then entry.pointer else 0
  else
    some 0

def getHandleType (handleList : HandleList) (handle : ℤ) : Option UInt32 :=
  if handle < handleList.length then
    (entryAt handleList handle).map HandleListEntry.type
  else
    some htEmpty

def removeHandle (handleList : HandleList) (handle : ℤ) : HandleList :=
  if 0 < handle ∧ handle < handleList.length then
    match entryAt handleList handle with
    | none => handleList
    | some entry =>
      if entry.type ≠ htEmpty then
        handleList.set handle.toNat { entry with type := htEmpty }
      else
        handleList
  else
    handleList

/-- Goes through the handles; the handles that `cb` is called for, and the one
that is returned. -/
def searchFrom (handleList : HandleList) (type : UInt32)
    (cb : UInt64 → Bool) : List ℕ → List ℕ × ℕ
  | [] => ([], 0)
  | i :: rest =>
    match handleList[i]? with
    | none => searchFrom handleList type cb rest
    | some entry =>
      if entry.type = type then
        if cb entry.pointer then
          ([i], i)
        else
          let later := searchFrom handleList type cb rest
          (i :: later.1, later.2)
      else
        searchFrom handleList type cb rest

def searchHandleList (handleList : HandleList) (type : UInt32)
    (cb : UInt64 → Bool) : List ℕ × ℕ :=
  searchFrom handleList type cb (List.range' 1 (handleList.length - 1))

inductive Call
  | create (memory : ℕ → HandleListEntry) (p : UInt64) (type : UInt32)
  | pointer (handle : ℤ)
  | type (handle : ℤ)
  | remove (handle : ℤ)
  | search (type : UInt32) (cb : UInt64 → Bool)

inductive Answer
  | handle (handle : ℕ)
  | pointer (p : UInt64)
  | type (type : UInt32)
  | nothing
  | found (called : List ℕ) (handle : ℕ)
deriving DecidableEq

/-- The list after the call and what it returns; no result where the call
leaves the array. -/
def execute (handleList : HandleList) :
    Call → Option (HandleList × Answer)
  | .create memory p type =>
    (createHandleFromPointer platform memory p type handleList).map
      fun result => (result.1, .handle result.2)
  | .pointer handle =>
    (getPointerFromHandle handleList handle).map fun p =>
      (handleList, .pointer p)
  | .type handle =>
    (getHandleType handleList handle).map fun type =>
      (handleList, .type type)
  | .remove handle => some (removeHandle handleList handle, .nothing)
  | .search type cb =>
    let result := searchHandleList handleList type cb
    some (handleList, .found result.1 result.2)

/-- The handles that were created and not removed, with what they were created
with. -/
abbrev Live := ℤ → Option HandleListEntry

def Live.after (live : Live) : Call → Answer → Live
  | .create _ p type, .handle handle =>
    Function.update live handle (some ⟨type, p⟩)
  | .remove handle, _ => Function.update live handle none
  | _, _ => live

/-- A new handle is positive and not in use, a question is answered with what
the handle was created with, or with `NULL` and `htEmpty`, and a search calls
back only what is in use. -/
def IsRight (live : Live) : Call → Answer → Prop
  | .create _ _ _, .handle handle => 0 < handle ∧ live handle = none
  | .pointer handle, .pointer p =>
    p = ((live handle).map HandleListEntry.pointer).getD 0
  | .type handle, .type type =>
    type = ((live handle).map HandleListEntry.type).getD htEmpty
  | .remove _, .nothing => True
  | .search _ _, .found called _ =>
    ∀ handle ∈ called, (live (handle : ℕ)).isSome = true
  | _, _ => False

def AnswersRight : HandleList → Live → List Call → Prop
  | _, _, [] => True
  | handleList, live, call :: rest =>
    ∃ next answer, execute platform handleList call = some (next, answer) ∧
      IsRight live call answer ∧
      AnswersRight next (live.after call answer) rest

instance (live : Live) (call : Call) (answer : Answer) :
    Decidable (IsRight live call answer) := by
  unfold IsRight
  split <;> infer_instance

instance decidableAnswersRight (handleList : HandleList) (live : Live)
    (calls : List Call) :
    Decidable (AnswersRight platform handleList live calls) :=
  match calls with
  | [] => isTrue trivial
  | call :: rest =>
    match hexecute : execute platform handleList call with
    | none => isFalse fun ⟨_, _, hsome, _⟩ => by
        rw [hexecute] at hsome
        cases hsome
    | some (next, answer) =>
      have := decidableAnswersRight next (live.after call answer) rest
      decidable_of_iff (IsRight live call answer ∧
        AnswersRight platform next (live.after call answer) rest)
        ⟨fun hright => ⟨next, answer, hexecute, hright⟩,
          fun ⟨_, _, hsome, hright⟩ => by
            rw [hexecute] at hsome
            cases hsome
            exact hright⟩

def IsHarmless (handleList : HandleList) : Call → Prop
  | .create memory _ type =>
    type ≠ htEmpty ∧
      if handleList = [] then
        platform = .bits32 →
          ∀ i, 256 ≤ i → i < 512 → (memory i).type = htEmpty
      else
        findEmpty handleList = none →
          handleList.length * 2 < 2 ^ 31 ∧
            ∀ i, handleList.length / sizeofHandleListEntry platform ≤ i →
              i < handleList.length → (memory i).type = htEmpty
  | .pointer handle => 0 ≤ handle
  | .type handle => 0 ≤ handle
  | .remove _ => True
  | .search type _ => type ≠ htEmpty

/-- Every call of the sequence is harmless in the state that it finds. -/
def AllHarmless : HandleList → List Call → Prop
  | _, [] => True
  | handleList, call :: rest =>
    IsHarmless platform handleList call ∧
      ∀ next answer, execute platform handleList call = some (next, answer) →
        AllHarmless next rest

/-! ## The table represents what is in use -/

def HandleListEntry.inUse (entry : HandleListEntry) : Option HandleListEntry :=
  if entry.type = htEmpty then none else some entry

structure Represents (handleList : HandleList) (live : Live) : Prop where
  entries : ∀ handle : ℕ,
    live handle = handleList[handle]?.bind HandleListEntry.inUse
  negative : ∀ handle < 0, live handle = none
  first : ∀ entry ∈ handleList[0]?, entry.type = htEmpty

theorem represents_nil : Represents [] fun _ => none where
  entries _ := rfl
  negative _ _ := rfl
  first _ hentry := by cases hentry

section

variable {handleList : HandleList} {live : Live}
  (hrepresents : Represents handleList live)
include hrepresents

theorem Represents.append {new : HandleList}
    (hnew : ∀ entry ∈ new, entry.type = htEmpty) :
    Represents (handleList ++ new) live where
  entries handle := by
    rw [hrepresents.entries]
    by_cases hhandle : handle < handleList.length
    · rw [getElem?_append_left hhandle]
    · rw [getElem?_append_right (by omega), getElem?_eq_none (by omega)]
      cases hentry : new[handle - handleList.length]? with
      | none => rfl
      | some entry =>
        have hempty := hnew entry (mem_of_getElem? hentry)
        rw [Option.bind_some, HandleListEntry.inUse, if_pos hempty]
        rfl
  negative := hrepresents.negative
  first entry hentry := by
    cases handleList with
    | nil => exact hnew entry (mem_of_getElem? hentry)
    | cons head rest => exact hrepresents.first entry hentry

theorem Represents.set {i : ℕ} (hpositive : 0 < i)
    (hlength : i < handleList.length) (entry : HandleListEntry) :
    Represents (handleList.set i entry)
      (Function.update live i entry.inUse) where
  entries handle := by
    by_cases hhandle : handle = i
    · subst hhandle
      rw [Function.update_self, getElem?_set_self hlength, Option.bind_some]
    · rw [Function.update_of_ne (by exact_mod_cast hhandle),
        hrepresents.entries, getElem?_set_ne (Ne.symm hhandle)]
  negative handle hhandle := by
    rw [Function.update_of_ne (by omega), hrepresents.negative handle hhandle]
  first other hother := by
    rw [getElem?_set_ne (by omega)] at hother
    exact hrepresents.first other hother

variable {handle : ℤ}

theorem Represents.live_eq_none
    (hempty : ∀ entry, entryAt handleList handle = some entry →
      0 < handle → entry.type = htEmpty) : live handle = none := by
  rcases lt_or_ge handle 0 with hnegative | hnonneg
  · exact hrepresents.negative handle hnegative
  · obtain ⟨index, rfl⟩ := Int.eq_ofNat_of_zero_le hnonneg
    rw [hrepresents.entries]
    cases hentry : handleList[index]? with
    | none => rfl
    | some entry =>
      refine if_pos ?_
      rcases index.eq_zero_or_pos with rfl | hpositive
      · exact hrepresents.first entry hentry
      · refine hempty entry ?_ (by omega)
        rw [entryAt, if_neg (by omega), Int.toNat_natCast, hentry]

theorem Represents.remove (handle : ℤ) :
    Represents (removeHandle handleList handle)
      (Function.update live handle none) := by
  have hkept (hnone : live handle = none) :
      Represents handleList (Function.update live handle none) := by
    rwa [Function.update_eq_self_iff.mpr hnone.symm]
  rw [removeHandle]
  split
  · next hrange =>
      cases hentry : entryAt handleList handle with
      | none =>
        refine hkept (hrepresents.live_eq_none fun entry hsome _ => ?_)
        rw [hentry] at hsome
        cases hsome
      | some entry =>
        dsimp only
        split
        · have hset := hrepresents.set (i := handle.toNat) (by omega)
            (by omega) { entry with type := htEmpty }
          rwa [Int.toNat_of_nonneg hrange.1.le] at hset
        · next hempty =>
            refine hkept (hrepresents.live_eq_none fun other hsome _ => ?_)
            rw [hentry] at hsome
            obtain rfl := Option.some.inj hsome
            exact not_not.mp hempty
  · next hrange =>
      refine hkept (hrepresents.live_eq_none fun entry hsome hpositive => ?_)
      rw [entryAt, if_neg (by omega), getElem?_eq_none (by omega)]
        at hsome
      cases hsome

theorem Represents.entry_cases (hhandle : 0 ≤ handle) :
    (handle < handleList.length ∧ ∃ entry,
      entryAt handleList handle = some entry ∧ live handle = entry.inUse) ∨
      (¬ handle < handleList.length ∧ live handle = none) := by
  obtain ⟨index, rfl⟩ := Int.eq_ofNat_of_zero_le hhandle
  rw [hrepresents.entries, entryAt, if_neg (by omega), Int.toNat_natCast]
  by_cases hlength : index < handleList.length
  · obtain ⟨entry, hentry⟩ : ∃ entry, handleList[index]? = some entry :=
      ⟨_, getElem?_eq_getElem hlength⟩
    rw [hentry]
    exact Or.inl ⟨by exact_mod_cast hlength, entry, rfl, rfl⟩
  · rw [getElem?_eq_none (by omega)]
    exact Or.inr ⟨by exact_mod_cast hlength, rfl⟩

theorem Represents.getPointer (hhandle : 0 ≤ handle) :
    getPointerFromHandle handleList handle =
      some (((live handle).map HandleListEntry.pointer).getD 0) := by
  rw [getPointerFromHandle]
  rcases hrepresents.entry_cases hhandle with
    ⟨hlength, entry, hentry, hlive⟩ | ⟨hlength, hlive⟩
  · rw [if_pos hlength, hentry, hlive, HandleListEntry.inUse]
    by_cases hempty : entry.type = htEmpty <;> simp [hempty]
  · rw [if_neg hlength, hlive]
    rfl

theorem Represents.getType (hhandle : 0 ≤ handle) :
    getHandleType handleList handle =
      some (((live handle).map HandleListEntry.type).getD htEmpty) := by
  rw [getHandleType]
  rcases hrepresents.entry_cases hhandle with
    ⟨hlength, entry, hentry, hlive⟩ | ⟨hlength, hlive⟩
  · rw [if_pos hlength, hentry, hlive, HandleListEntry.inUse]
    by_cases hempty : entry.type = htEmpty <;> simp [hempty]
  · rw [if_neg hlength, hlive]
    rfl

theorem Represents.search {type : UInt32} (htype : type ≠ htEmpty)
    (cb : UInt64 → Bool) (handles : List ℕ) :
    ∀ handle ∈ (searchFrom handleList type cb handles).1,
      (live (handle : ℕ)).isSome = true := by
  induction handles with
  | nil => simp [searchFrom]
  | cons i rest ih =>
    rw [searchFrom]
    cases hentry : handleList[i]? with
    | none => exact ih
    | some entry =>
      dsimp only
      by_cases hsame : entry.type = type
      · have hlive : (live (i : ℕ)).isSome = true := by
          rw [hrepresents.entries, hentry, Option.bind_some,
            HandleListEntry.inUse, if_neg (by rw [hsame]; exact htype)]
          rfl
        rw [if_pos hsame]
        split
        · exact forall_mem_singleton.mpr hlive
        · exact forall_mem_cons.mpr ⟨hlive, ih⟩
      · rw [if_neg hsame]
        exact ih

end

variable {handleList : HandleList} {memory : ℕ → HandleListEntry} {live : Live}

theorem findEmpty_some {i : ℕ} (hfind : findEmpty handleList = some i) :
    0 < i ∧ i < handleList.length ∧
      ∃ entry, handleList[i]? = some entry ∧ entry.type = htEmpty := by
  have hany := find?_some hfind
  have hmem := mem_range'_1.mp (mem_of_find?_eq_some hfind)
  obtain ⟨entry, hentry, hempty⟩ := (Option.any_eq_true _ _).mp hany
  exact ⟨by omega, by omega, entry, hentry, of_decide_eq_true hempty⟩

theorem findEmpty_initial (memory : ℕ → HandleListEntry) :
    ∃ i, findEmpty (initialHandleList platform memory) = some i := by
  have hsize : 1 < 4096 / sizeofHandleListEntry platform := by
    cases platform <;> decide
  rw [← Option.isSome_iff_exists, findEmpty, find?_isSome]
  refine ⟨1, mem_range'_1.mpr ⟨le_rfl, ?_⟩, ?_⟩
  · rw [initialHandleList, length_map, length_range]
    omega
  · rw [initialHandleList, getElem?_map, getElem?_range hsize]
    rfl

theorem represents_initial (hmemory : platform = .bits32 →
      ∀ i, 256 ≤ i → i < 512 → (memory i).type = htEmpty)
    (hrepresents : Represents [] live) :
    Represents (initialHandleList platform memory) live := by
  rw [← nil_append (initialHandleList platform memory)]
  refine hrepresents.append fun entry hentry => ?_
  obtain ⟨i, hi, rfl⟩ := mem_map.mp hentry
  rw [mem_range] at hi
  split
  · rfl
  · next hlarge =>
      cases platform with
      | bits32 => exact hmemory rfl i (by omega) hi
      | bits64 => exact absurd hi (by simp [sizeofHandleListEntry]; omega)

theorem newHandleList_empty {size : ℕ}
    (hmemory : ∀ i, size / sizeofHandleListEntry platform ≤ i → i < size →
      (memory i).type = htEmpty) :
    ∀ entry ∈ newHandleList platform memory size, entry.type = htEmpty := by
  intro entry hentry
  obtain ⟨i, hi, rfl⟩ := mem_map.mp hentry
  split
  · rfl
  · next hlarge => exact hmemory i (by omega) (mem_range.mp hi)

section

variable (hrepresents : Represents handleList live)

include hrepresents

theorem Represents.created {i : ℕ} (hpositive : 0 < i)
    {entry : HandleListEntry} (hentry : handleList[i]? = some entry)
    (hempty : entry.type = htEmpty) (p : UInt64) {type : UInt32}
    (htype : type ≠ htEmpty) :
    live (i : ℕ) = none ∧ Represents (handleList.set i ⟨type, p⟩)
      (Function.update live i (some ⟨type, p⟩)) := by
  refine ⟨?_, ?_⟩
  · rw [hrepresents.entries, hentry]
    exact if_pos hempty
  · have hlength := (List.getElem?_eq_some_iff.mp hentry).1
    have hset := hrepresents.set hpositive hlength ⟨type, p⟩
    rwa [HandleListEntry.inUse, if_neg htype] at hset

theorem Represents.create (p : UInt64) {type : UInt32}
    (hharmless : IsHarmless platform handleList (.create memory p type)) :
    ∃ next handle,
      createHandleFromPointer platform memory p type handleList =
        some (next, handle) ∧
      0 < handle ∧ live (handle : ℕ) = none ∧
      Represents next (Function.update live handle (some ⟨type, p⟩)) := by
  obtain ⟨htype, hmemory⟩ := hharmless
  rw [createHandleFromPointer]
  by_cases hnil : handleList = []
  · subst hnil
    rw [if_pos rfl] at hmemory
    have hinitial := represents_initial platform hmemory hrepresents
    obtain ⟨i, hfind⟩ := findEmpty_initial platform memory
    obtain ⟨hpositive, -, entry, hentry, hempty⟩ := findEmpty_some hfind
    obtain ⟨hfree, hnext⟩ :=
      hinitial.created hpositive hentry hempty p htype
    rw [if_pos rfl, hfind]
    exact ⟨_, i, rfl, hpositive, hfree, hnext⟩
  · rw [if_neg hnil] at hmemory ⊢
    cases hfind : findEmpty handleList with
    | some i =>
      obtain ⟨hpositive, -, entry, hentry, hempty⟩ := findEmpty_some hfind
      obtain ⟨hfree, hnext⟩ :=
        hrepresents.created hpositive hentry hempty p htype
      exact ⟨_, i, rfl, hpositive, hfree, hnext⟩
    | none =>
      obtain ⟨hroom, hnew⟩ := hmemory hfind
      have hallNew := newHandleList_empty platform hnew
      have hpositive : 0 < handleList.length :=
        length_pos_iff.mpr hnil
      obtain ⟨entry, hentry⟩ : ∃ entry,
          (handleList ++ newHandleList platform memory
            handleList.length)[handleList.length]? = some entry := by
        refine ⟨_, getElem?_eq_getElem ?_⟩
        simp [newHandleList, hpositive]
      have hempty : entry.type = htEmpty := by
        rw [getElem?_append_right le_rfl] at hentry
        exact hallNew entry (mem_of_getElem? hentry)
      obtain ⟨hfree, hnext⟩ := (hrepresents.append hallNew).created
        hpositive hentry hempty p htype
      dsimp only
      rw [if_pos hroom]
      exact ⟨_, _, rfl, hpositive, hfree, hnext⟩

theorem execute_right {call : Call}
    (hharmless : IsHarmless platform handleList call) :
    ∃ next answer, execute platform handleList call = some (next, answer) ∧
      IsRight live call answer ∧
      Represents next (live.after call answer) := by
  cases call with
  | create memory p type =>
    obtain ⟨next, handle, hcreate, hpositive, hfree, hnext⟩ :=
      hrepresents.create platform p hharmless
    refine ⟨next, .handle handle, ?_, ⟨hpositive, hfree⟩, hnext⟩
    rw [execute, hcreate]
    rfl
  | pointer handle =>
    refine ⟨handleList, .pointer _, ?_, rfl, hrepresents⟩
    rw [execute, hrepresents.getPointer hharmless]
    rfl
  | type handle =>
    refine ⟨handleList, .type _, ?_, rfl, hrepresents⟩
    rw [execute, hrepresents.getType hharmless]
    rfl
  | remove handle =>
    exact ⟨_, _, rfl, trivial, hrepresents.remove handle⟩
  | search type cb =>
    exact ⟨handleList, _, rfl, hrepresents.search hharmless cb _, hrepresents⟩

theorem answersRight_of_represents {calls : List Call}
    (hharmless : AllHarmless platform handleList calls) :
    AnswersRight platform handleList live calls := by
  induction calls generalizing handleList live with
  | nil => trivial
  | cons call rest ih =>
    obtain ⟨hcall, hrest⟩ := hharmless
    obtain ⟨next, answer, hexecute, hright, hnext⟩ :=
      execute_right platform hrepresents hcall
    exact ⟨next, answer, hexecute, hright,
      ih hnext (hrest next answer hexecute)⟩

end

/-- Harmless calls are answered right, whatever new memory holds. -/
theorem answersRight (calls : List Call)
    (hharmless : AllHarmless platform [] calls) :
    AnswersRight platform [] (fun _ => none) calls :=
  answersRight_of_represents platform represents_nil hharmless

/-- Of the 512 entries of the first array of a program of 32 bits only 256 are
cleared: the handle 300 has a type before it was issued. -/
theorem not_answersRight :
    ¬ AnswersRight .bits32 [] (fun _ => none)
      [.create (fun _ => ⟨1, 7⟩) 5 1, .type 300] := by
  decide +kernel

theorem answersRight_removed :
    AnswersRight .bits64 [] (fun _ => none)
      [.create (fun _ => ⟨1, 7⟩) 5 1, .pointer 1, .remove 1, .type 1] := by
  have hcreate : IsHarmless .bits64 []
      (.create (fun _ => ⟨1, 7⟩) 5 1) := by
    refine ⟨by decide, ?_⟩
    rw [if_pos rfl]
    exact fun hplatform => nomatch hplatform
  have hhandle : (0 : ℤ) ≤ 1 := by decide
  have hall : AllHarmless .bits64 []
      [.create (fun _ => ⟨1, 7⟩) 5 1, .pointer 1, .remove 1, .type 1] :=
    ⟨hcreate, fun _ _ _ => ⟨hhandle, fun _ _ _ => ⟨trivial, fun _ _ _ =>
      ⟨hhandle, fun _ _ _ => trivial⟩⟩⟩⟩
  exact answersRight _ _ hall

end CheatEngine.HandleTable
