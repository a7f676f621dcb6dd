import Mathlib.Tactic

/-!
# The page map of the pointer rescan

A tree of tables with sixteen entries.  The page number is an `integer`, the
callers' page numbers are as wide as a pointer.
-/

namespace CheatEngine
namespace PageMap

open List

/-- Entries of the last level are the stored ones, those above are tables. -/
def PageEntryArray (Info : Type) : ℕ → Type
  | 0 => Fin 16 → Option Info
  | level + 1 => Fin 16 → Option (PageEntryArray Info level)

section

variable {Info : Type}

def tables {level : ℕ} (list : PageEntryArray Info (level + 1)) :
    Fin 16 → Option (PageEntryArray Info level) :=
  list

def setTable {level : ℕ} (list : PageEntryArray Info (level + 1))
    (entrynr : Fin 16) (table : PageEntryArray Info level) :
    PageEntryArray Info (level + 1) :=
  Function.update (tables list) entrynr (some table)

theorem tables_setTable {level : ℕ} (list : PageEntryArray Info (level + 1))
    (entrynr other : Fin 16) (table : PageEntryArray Info level) :
    tables (setTable list entrynr table) other =
      if other = entrynr then some table else tables list other :=
  Function.update_apply (tables list) entrynr (some table) other

/-- `ZeroMemory` -/
def emptyArray : (level : ℕ) → PageEntryArray Info level
  | 0 => fun _ => none
  | _ + 1 => fun _ => none

/-- The loop with `entrynr` by the number of levels below. -/
def lookUp (entrynr : ℕ → Fin 16) :
    (level : ℕ) → PageEntryArray Info level → Option Info
  | 0, list => list (entrynr 0)
  | level + 1, list =>
    (tables list (entrynr (level + 1))).bind (lookUp entrynr level)

/-- An entry that is there already stays. -/
def insert (entrynr : ℕ → Fin 16) (info : Info) :
    (level : ℕ) → PageEntryArray Info level →
      Info × PageEntryArray Info level
  | 0, list =>
    match list (entrynr 0) with
    | some pi => (pi, list)
    | none => (info, Function.update list (entrynr 0) (some info))
  | level + 1, list =>
    let added := insert entrynr info level
      ((tables list (entrynr (level + 1))).getD (emptyArray level))
    (added.1, setTable list (entrynr (level + 1)) added.2)

variable (entrynr : ℕ → Fin 16)

theorem lookUp_emptyArray (level : ℕ) :
    lookUp entrynr level (emptyArray level : PageEntryArray Info level) =
      none := by
  cases level with
  | zero => rfl
  | succ level => rfl

theorem lookUp_getD (level : ℕ) (entry : Option (PageEntryArray Info level)) :
    lookUp entrynr level (entry.getD (emptyArray level)) =
      entry.bind (lookUp entrynr level) := by
  cases entry with
  | none => exact lookUp_emptyArray entrynr level
  | some list => rfl

/-- An insertion is found on its own path only. -/
theorem lookUp_insert (other : ℕ → Fin 16) (info : Info) (level : ℕ)
    (list : PageEntryArray Info level) :
    lookUp other level (insert entrynr info level list).2 =
      if ∀ below ≤ level, other below = entrynr below then
        some ((lookUp other level list).getD info)
      else lookUp other level list := by
  induction level with
  | zero =>
    simp only [Nat.le_zero_eq, forall_eq, insert, lookUp]
    by_cases hsame : other 0 = entrynr 0
    · rw [if_pos hsame, hsame]
      cases hentry : list (entrynr 0) with
      | none => exact Function.update_self ..
      | some pi => exact hentry
    · rw [if_neg hsame]
      cases hentry : list (entrynr 0) with
      | none => exact Function.update_of_ne hsame ..
      | some pi => rfl
  | succ level ih =>
    simp only [insert, lookUp]
    by_cases hsame : other (level + 1) = entrynr (level + 1)
    · have hpath : (∀ below ≤ level + 1, other below = entrynr below) ↔
          ∀ below ≤ level, other below = entrynr below := by
        constructor
        · exact fun hall below hle => hall below (Nat.le_succ_of_le hle)
        · intro hall below hle
          rcases Nat.le_succ_iff.mp hle with hlow | rfl
          · exact hall below hlow
          · exact hsame
      rw [tables_setTable, if_pos hsame, Option.bind_some, ih, lookUp_getD,
        hsame]
      simp only [hpath]
    · rw [tables_setTable, if_neg hsame, if_neg fun hall =>
        hsame (hall (level + 1) le_rfl)]

end

/-- The data of a page is a pointer, and a shift of the page number is that
of the processor. -/
structure TPageMap where
  level0list : PageEntryArray UInt64 12

def maxlevel : ℕ := 15 - 3

def TPageMap.create : TPageMap :=
  ⟨emptyArray 12⟩

section

variable (shr : UInt32 → ℕ → ℕ)

local instance neZero : NeZero 16 := ⟨by decide⟩

def entrynr (pageindex : UInt32) (below : ℕ) : Fin 16 :=
  Fin.ofNat 16 (shr pageindex (below * 4))

def TPageMap.GetPageInfo (map : TPageMap) (pageindex : UInt32) :
    Option UInt64 :=
  lookUp (entrynr shr pageindex) maxlevel map.level0list

def TPageMap.Add (map : TPageMap) (pageindex : UInt32) (pagedata : UInt64) :
    UInt64 × TPageMap :=
  let added := insert (entrynr shr pageindex) pagedata maxlevel
    map.level0list
  (added.1, ⟨added.2⟩)

/-- Calls with page numbers of 64 bits: the parameter holds 32 of them. -/
def addAll (map : TPageMap) (adds : List (UInt64 × UInt64)) : TPageMap :=
  adds.foldl (fun map add => (map.Add shr add.1.toUInt32 add.2).2) map

end

/-- Nothing is said about a shift by more than 31. -/
def ShiftsWord (shr : UInt32 → ℕ → ℕ) : Prop :=
  ∀ value count, count < 32 → shr value count % 16 =
    value.toNat / 2 ^ count % 16

/-- The data of the first of the calls for the page. -/
def firstAdd (adds : List (UInt64 × UInt64)) (page : UInt64) :
    Option UInt64 :=
  (adds.find? fun add => add.1 = page).map Prod.snd

/-! ## The map -/

section

variable {shr : UInt32 → ℕ → ℕ}

/-- Eight of the levels tell page numbers of 32 bits apart. -/
theorem entrynr_inj (hshifts : ShiftsWord shr) {first second : UInt32}
    (hsame : ∀ below ≤ maxlevel,
      entrynr shr first below = entrynr shr second below) :
    first = second := by
  have hnibble : ∀ below ≤ 7, first.toNat / 2 ^ (below * 4) % 16 =
      second.toNat / 2 ^ (below * 4) % 16 := by
    intro below hle
    have hentry := congrArg Fin.val (hsame below (hle.trans (by decide)))
    simp only [entrynr, Fin.val_ofNat] at hentry
    rwa [hshifts first _ (by omega), hshifts second _ (by omega)] at hentry
  have h0 := hnibble 0 (by decide)
  have h1 := hnibble 1 (by decide)
  have h2 := hnibble 2 (by decide)
  have h3 := hnibble 3 (by decide)
  have h4 := hnibble 4 (by decide)
  have h5 := hnibble 5 (by decide)
  have h6 := hnibble 6 (by decide)
  have h7 := hnibble 7 (by decide)
  have hfirst := first.toNat_lt
  have hsecond := second.toNat_lt
  norm_num at h0 h1 h2 h3 h4 h5 h6 h7
  apply UInt32.toNat_inj.mp
  omega

theorem getPageInfo_add (hshifts : ShiftsWord shr) (map : TPageMap)
    (page pageindex : UInt32) (pagedata : UInt64) :
    (map.Add shr pageindex pagedata).2.GetPageInfo shr page =
      if page = pageindex then
        some ((map.GetPageInfo shr page).getD pagedata)
      else map.GetPageInfo shr page := by
  have hpath : (∀ below ≤ maxlevel,
      entrynr shr page below = entrynr shr pageindex below) ↔
        page = pageindex :=
    ⟨entrynr_inj hshifts, fun hsame _ _ => by rw [hsame]⟩
  refine (lookUp_insert _ _ _ _ _).trans ?_
  simp only [hpath]
  rfl

theorem getPageInfo_create (page : UInt32) :
    TPageMap.create.GetPageInfo shr page = none :=
  lookUp_emptyArray _ 12

theorem getPageInfo_addAll (hshifts : ShiftsWord shr) (map : TPageMap)
    (adds : List (UInt64 × UInt64)) (page : UInt32) :
    (addAll shr map adds).GetPageInfo shr page =
      (map.GetPageInfo shr page).or
        ((adds.find? fun add => add.1.toUInt32 = page).map Prod.snd) := by
  induction adds generalizing map with
  | nil => exact (Option.or_none).symm
  | cons add rest ih =>
    refine (ih _).trans ?_
    rw [getPageInfo_add hshifts, find?_cons]
    by_cases hsame : page = add.1.toUInt32
    · rw [if_pos hsame]
      cases hentry : map.GetPageInfo shr page with
      | none => simp [hsame]
      | some pi => rfl
    · rw [if_neg hsame]
      simp [Ne.symm hsame]

theorem getPageInfo_run (hshifts : ShiftsWord shr)
    (adds : List (UInt64 × UInt64)) (page : UInt64) :
    (addAll shr .create adds).GetPageInfo shr page.toUInt32 =
      (adds.find? fun add => add.1.toUInt32 = page.toUInt32).map
        Prod.snd := by
  rw [getPageInfo_addAll hshifts, getPageInfo_create]
  rfl

theorem getPageInfo_firstAdd_iff (hshifts : ShiftsWord shr)
    (pages : List UInt64) (page : UInt64) :
    (∀ data : List UInt64, data.length = pages.length →
      (addAll shr .create (pages.zip data)).GetPageInfo shr page.toUInt32 =
        firstAdd (pages.zip data) page) ↔
      ∀ other ∈ pages.takeWhile (· ≠ page),
        other.toUInt32 ≠ page.toUInt32 := by
  simp only [getPageInfo_run hshifts, firstAdd]
  induction pages with
  | nil => simp
  | cons first rest ih =>
    by_cases hfirst : first = page
    · subst hfirst
      refine iff_of_true ?_ (by simp)
      intro data hlength
      cases data with
      | nil => rfl
      | cons value data => simp
    · rw [takeWhile_cons_of_pos (by simpa using hfirst)]
      by_cases hlow : first.toUInt32 = page.toUInt32
      · refine iff_of_false ?_ ?_
        · intro hright
          have hrest := hright (1 :: List.replicate rest.length 0) (by simp)
          simp only [zip_cons_cons, find?_cons, hlow, hfirst,
            decide_true, decide_false, Option.map_some] at hrest
          obtain ⟨add, hfind, hdata⟩ := Option.map_eq_some_iff.mp hrest.symm
          have hzero := eq_of_mem_replicate
            (of_mem_zip (mem_of_find?_eq_some hfind)).2
          rw [hdata] at hzero
          exact absurd hzero (by decide)
        · intro hall
          exact hall first mem_cons_self hlow
      · rw [forall_mem_cons, and_iff_right hlow, ← ih]
        constructor
        · intro hright data hlength
          have hrest := hright (0 :: data) (by simp [hlength])
          simpa [hfirst, hlow] using hrest
        · intro hright data hlength
          cases data with
          | nil => cases hlength
          | cons value data =>
            have hrest := hright data (by simpa using hlength)
            simpa [hfirst, hlow] using hrest

/-- The answer for a page changes with a call for another one exactly when
their low 32 bits are the same and no call had them before. -/
theorem getPageInfo_unchanged_iff (hshifts : ShiftsWord shr)
    (adds : List (UInt64 × UInt64)) (other page pagedata : UInt64) :
    (addAll shr .create (adds ++ [(other, pagedata)])).GetPageInfo shr
        page.toUInt32 =
      (addAll shr .create adds).GetPageInfo shr page.toUInt32 ↔
      (other.toUInt32 = page.toUInt32 →
        ∃ add ∈ adds, add.1.toUInt32 = page.toUInt32) := by
  rw [getPageInfo_run hshifts, getPageInfo_run hshifts, find?_append]
  cases hfind : adds.find? fun add => add.1.toUInt32 = page.toUInt32 with
  | some add =>
    have hlow := find?_some hfind
    refine iff_of_true rfl fun _ => ⟨add, mem_of_find?_eq_some hfind, ?_⟩
    simpa using hlow
  | none =>
    rw [find?_eq_none] at hfind
    by_cases hlow : other.toUInt32 = page.toUInt32
    · refine iff_of_false ?_ ?_
      · simp [hlow]
      · intro hbefore
        obtain ⟨add, hadd, hsame⟩ := hbefore hlow
        exact hfind add hadd (by simpa using hsame)
    · refine iff_of_true ?_ fun hsame => absurd hsame hlow
      simp [hlow]

/-- Whatever data the calls give, a page has that of its first call exactly
when no call for another page with the same low 32 bits comes before it, and
a call for another page leaves the answer when the low bits differ or were
there before. -/
theorem getPageInfo_iff (hshifts : ShiftsWord shr) (page : UInt64) :
    (∀ pages : List UInt64,
      (∀ data : List UInt64, data.length = pages.length →
        (addAll shr .create (pages.zip data)).GetPageInfo shr page.toUInt32 =
          firstAdd (pages.zip data) page) ↔
        ∀ other ∈ pages.takeWhile (· ≠ page), other.toUInt32 ≠ page.toUInt32) ∧
    ∀ (adds : List (UInt64 × UInt64)) (other pagedata : UInt64),
      (addAll shr .create (adds ++ [(other, pagedata)])).GetPageInfo shr
          page.toUInt32 =
        (addAll shr .create adds).GetPageInfo shr page.toUInt32 ↔
        (other.toUInt32 = page.toUInt32 →
          ∃ add ∈ adds, add.1.toUInt32 = page.toUInt32) :=
  ⟨fun pages => getPageInfo_firstAdd_iff hshifts pages page,
    fun adds other => getPageInfo_unchanged_iff hshifts adds other page⟩

end

/-- Counts are taken modulo 32. -/
def shrX86 (value : UInt32) (count : ℕ) : ℕ :=
  value.toNat / 2 ^ (count % 32)

theorem shiftsWord_shrX86 : ShiftsWord shrX86 := by
  intro value count hcount
  rw [shrX86, Nat.mod_eq_of_lt hcount]

theorem getPageInfo_iff_low :
    ((∀ data : List UInt64, data.length = 2 →
      (addAll shrX86 .create ([7, 8].zip data)).GetPageInfo shrX86 8 =
        firstAdd ([7, 8].zip data) 8) ↔
      ∀ other ∈ [7, 8].takeWhile (· ≠ (8 : UInt64)), other.toUInt32 ≠ 8) :=
  (getPageInfo_iff shiftsWord_shrX86 8).1 [7, 8]

/-- Page `2 ^ 32` has the data of page 0. -/
theorem not_getPageInfo_high :
    ¬ ∀ (adds : List (UInt64 × UInt64)) (page : UInt64),
      (addAll shrX86 .create adds).GetPageInfo shrX86 page.toUInt32 =
        firstAdd adds page := by
  intro hright
  have hrun := hright [(0, 1), (0x100000000, 2)] 0x100000000
  rw [getPageInfo_run shiftsWord_shrX86] at hrun
  exact absurd hrun (by decide)

end PageMap
end CheatEngine
