import CheatEngine.PointerValueList

/-!
# Module lists of the loaded pointer maps

A rescan looks every module of a stored path up by its index in the list of
the scan.  `reorderModuleIdList` gives a loaded map the order of that list.
Names are compared through `fold`, which is what `IndexOf` makes of the case
of a name.
-/

namespace CheatEngine.PointerAddressList

open List

open PointerValueList (Module)

/-- `modulelist.add('missing')`, with address 0. -/
def missing : Module where
  name := [109, 105, 115, 115, 105, 110, 103]
  base := 0

def padModuleList (count : ℕ) (modulelist : List Module) : List Module :=
  modulelist ++ List.replicate (count - modulelist.length) missing

section

variable {Folded : Type*} [DecidableEq Folded] (fold : List UInt8 → Folded)

def indexOf (modulelist : List Module) (name : List UInt8) : Option ℕ :=
  modulelist.findIdx? fun entry => fold entry.name = fold name

/-- One turn of the loop: a module that wasn't in the list is added with
address 0, and the module trades places with the one at its index. -/
def placeModule (i : ℕ) (name : List UInt8) (modulelist : List Module) :
    List Module :=
  match indexOf fold modulelist name with
  | some oldindex => modulelist.swap oldindex i
  | none =>
    (modulelist ++ [({ name, base := 0 } : Module)]).swap
      modulelist.length i

def placeModules : ℕ → List (List UInt8) → List Module → List Module
  | _, [], modulelist => modulelist
  | i, name :: ml, modulelist =>
    placeModules (i + 1) ml (placeModule fold i name modulelist)

def reorderModuleIdList (ml : List (List UInt8)) (modulelist : List Module) :
    List Module :=
  placeModules fold 0 ml (padModuleList ml.length modulelist)

/-- The names of `ml` that a list lacks, with address 0. -/
def missingModules (ml : List (List UInt8)) (modulelist : List Module) :
    List Module :=
  (ml.filter fun name => indexOf fold modulelist name = none).map
    fun name => { name, base := 0 }

/-- The names of `ml` come first, with the addresses that the map has for
them, and nothing of the map is lost. -/
structure Reordered (ml : List (List UInt8))
    (original reordered : List Module) : Prop where
  modules : reordered.Perm (padModuleList ml.length original ++
    missingModules fold ml (padModuleList ml.length original))
  names : (reordered.take ml.length).map (fun entry => fold entry.name) =
    ml.map fold
  bases : ∀ i : ℕ, ∀ name ∈ ml[i]?, ∃ entry ∈ reordered[i]?,
    fold entry.name = fold name ∧
      (entry ∈ original ∨ entry.base = 0 ∧
        (indexOf fold original name = none ∨
          original.length < ml.length ∧ fold missing.name = fold name))

variable {fold}

variable {modulelist : List Module} {name : List UInt8} {i : ℕ}
  {ml : List (List UInt8)}

theorem indexOf_eq_none_iff :
    indexOf fold modulelist name = none ↔
      ∀ entry ∈ modulelist, fold entry.name ≠ fold name := by
  simp [indexOf, findIdx?_eq_none_iff]

theorem indexOf_perm {first second : List Module}
    (hperm : first.Perm second) (name : List UInt8) :
    indexOf fold first name = none ↔ indexOf fold second name = none := by
  simp only [indexOf_eq_none_iff, hperm.mem_iff]

theorem indexOf_append_eq_none {first second : List Module} :
    indexOf fold (first ++ second) name = none ↔
      indexOf fold first name = none ∧ indexOf fold second name = none := by
  simp only [indexOf_eq_none_iff, mem_append, or_imp, forall_and]

theorem placeModule_perm (i : ℕ) (name : List UInt8)
    (modulelist : List Module) :
    (placeModule fold i name modulelist).Perm
      (modulelist ++ missingModules fold [name] modulelist) := by
  unfold placeModule missingModules
  cases hindex : indexOf fold modulelist name with
  | some oldindex => simp [hindex, swap_perm]
  | none => simp [hindex, swap_perm]

theorem length_placeModule_ge (i : ℕ) (name : List UInt8)
    (modulelist : List Module) :
    modulelist.length ≤ (placeModule fold i name modulelist).length := by
  rw [(placeModule_perm i name modulelist).length_eq, length_append]
  exact Nat.le_add_right _ _

theorem placeModule_self {i : ℕ} {name : List UInt8}
    {modulelist : List Module} (hroom : i < modulelist.length) :
    ((placeModule fold i name modulelist)[i]?).map
      (fun entry => fold entry.name) = some (fold name) := by
  unfold placeModule
  cases hindex : indexOf fold modulelist name with
  | some oldindex =>
    obtain ⟨hold, hname, -⟩ :=
      findIdx?_eq_some_iff_getElem.mp hindex
    simp only
    rw [getElem?_eq_getElem (by simpa using hroom),
      getElem_swap_right_of_lt hold]
    simpa using hname
  | none =>
    simp only
    rw [getElem?_eq_getElem (by simp; omega),
      getElem_swap_right_of_lt (by simp)]
    simp

theorem placeModule_of_lt {j : ℕ} (hroom : i < modulelist.length)
    (hj : j < i)
    (hplaced : ∀ j < i, ∀ entry ∈ modulelist[j]?, fold entry.name ≠ fold name) :
    (placeModule fold i name modulelist)[j]? = modulelist[j]? := by
  have hlt : j < modulelist.length := hj.trans hroom
  unfold placeModule
  cases hindex : indexOf fold modulelist name with
  | some oldindex =>
    obtain ⟨hold, hname, -⟩ :=
      findIdx?_eq_some_iff_getElem.mp hindex
    have hother : j ≠ oldindex := by
      rintro rfl
      apply hplaced j hj modulelist[j] (getElem?_eq_getElem hlt)
      simpa using hname
    simp only
    rw [getElem?_eq_getElem (by simpa using hlt),
      getElem_swap_of_ne hother hj.ne, getElem?_eq_getElem hlt]
  | none =>
    simp only
    rw [getElem?_eq_getElem (by simp; omega), getElem_swap_of_ne hlt.ne hj.ne,
      getElem_append_left hlt, getElem?_eq_getElem hlt]

/-! ## The whole loop -/

theorem missingModules_cons (name : List UInt8) (ml : List (List UInt8))
    (modulelist : List Module) :
    missingModules fold (name :: ml) modulelist =
      missingModules fold [name] modulelist ++
        missingModules fold ml modulelist := by
  unfold missingModules
  rw [← map_append, ← filter_append]
  rfl

theorem missingModules_congr {first second : List Module}
    (hsame : ∀ name ∈ ml, indexOf fold first name = none ↔
      indexOf fold second name = none) :
    missingModules fold ml first = missingModules fold ml second := by
  unfold missingModules
  congr 1
  apply filter_congr
  intro name hname
  simp only [hsame name hname]

theorem indexOf_placeModule {other : List UInt8}
    (hdiffers : fold name ≠ fold other) :
    indexOf fold (placeModule fold i name modulelist) other = none ↔
      indexOf fold modulelist other = none := by
  rw [indexOf_perm (placeModule_perm i name modulelist),
    indexOf_append_eq_none]
  constructor
  · exact And.left
  · intro hnone
    refine ⟨hnone, indexOf_eq_none_iff.mpr ?_⟩
    intro entry hentry
    obtain ⟨found, hfound, rfl⟩ := mem_map.mp hentry
    rw [mem_singleton.mp (mem_filter.mp hfound).1]
    exact hdiffers

theorem placeModules_perm (hdistinct : (ml.map fold).Nodup) (i : ℕ)
    (modulelist : List Module) :
    (placeModules fold i ml modulelist).Perm
      (modulelist ++ missingModules fold ml modulelist) := by
  induction ml generalizing i modulelist with
  | nil => simp [placeModules, missingModules]
  | cons name ml ih =>
    rw [map_cons, nodup_cons] at hdistinct
    have hsame : missingModules fold ml
        (placeModule fold i name modulelist) =
          missingModules fold ml modulelist := by
      apply missingModules_congr
      intro other hother
      apply indexOf_placeModule
      intro heq
      exact hdistinct.1 (heq ▸ mem_map_of_mem hother)
    have hrest := ih hdistinct.2 (i + 1) (placeModule fold i name modulelist)
    rw [hsame] at hrest
    rw [placeModules, missingModules_cons, ← append_assoc]
    exact hrest.trans ((placeModule_perm i name modulelist).append_right _)

def Differ (fold : List UInt8 → Folded) (i : ℕ) (ml : List (List UInt8))
    (modulelist : List Module) : Prop :=
  ∀ name ∈ ml, ∀ j < i, ∀ entry ∈ modulelist[j]?,
    fold entry.name ≠ fold name

theorem Differ.placeModule (hdiffer : Differ fold i (name :: ml) modulelist)
    (hroom : i < modulelist.length) (hname : fold name ∉ ml.map fold) :
    Differ fold (i + 1) ml (placeModule fold i name modulelist) := by
  intro other hother k hk entry hentry
  rcases Nat.lt_succ_iff_lt_or_eq.mp hk with hlt | rfl
  · rw [placeModule_of_lt hroom hlt (hdiffer name (by simp))] at hentry
    exact hdiffer other (by simp [hother]) k hlt entry hentry
  · have hself := @placeModule_self _ _ fold _ name _ hroom
    rw [Option.mem_def.mp hentry, Option.map_some, Option.some.injEq] at hself
    rw [hself]
    intro heq
    exact hname (heq ▸ mem_map_of_mem hother)

theorem placeModules_of_lt {j : ℕ}
    (hroom : i + ml.length ≤ modulelist.length) (hj : j < i)
    (hdistinct : (ml.map fold).Nodup) (hdiffer : Differ fold i ml modulelist) :
    (placeModules fold i ml modulelist)[j]? = modulelist[j]? := by
  induction ml generalizing i modulelist with
  | nil => rfl
  | cons name ml ih =>
    rw [map_cons, nodup_cons] at hdistinct
    rw [length_cons] at hroom
    have hroomHere : i < modulelist.length := by omega
    have hlength : modulelist.length ≤
        (placeModule fold i name modulelist).length :=
      length_placeModule_ge i name modulelist
    rw [placeModules, ih (by omega) (by omega) hdistinct.2
      (hdiffer.placeModule hroomHere hdistinct.1)]
    exact placeModule_of_lt hroomHere hj (hdiffer name (by simp))

theorem placeModules_names (hroom : i + ml.length ≤ modulelist.length)
    (hdistinct : (ml.map fold).Nodup) (hdiffer : Differ fold i ml modulelist) :
    ((placeModules fold i ml modulelist).drop i |>.take ml.length).map
      (fun entry => fold entry.name) = ml.map fold := by
  induction ml generalizing i modulelist with
  | nil => simp
  | cons name ml ih =>
    rw [map_cons, nodup_cons] at hdistinct
    rw [length_cons] at hroom
    have hroomHere : i < modulelist.length := by omega
    have hlength : modulelist.length ≤
        (placeModule fold i name modulelist).length :=
      length_placeModule_ge i name modulelist
    have hdifferRest := hdiffer.placeModule hroomHere hdistinct.1
    have hrest := ih (by omega) hdistinct.2 hdifferRest
    have hplaced : ((placeModules fold (i + 1) ml
        (placeModule fold i name modulelist))[i]?).map
          (fun entry => fold entry.name) = some (fold name) := by
      rw [placeModules_of_lt (by omega) (Nat.lt_succ_self i) hdistinct.2
        hdifferRest]
      exact placeModule_self hroomHere
    rw [Option.map_eq_some_iff] at hplaced
    obtain ⟨entry, hentry, hname⟩ := hplaced
    rw [placeModules, drop_eq_getElem?_toList_append, hentry,
      Option.toList_some, singleton_append, length_cons,
      take_succ_cons, map_cons, map_cons, hname, hrest]

theorem length_padModuleList_ge (count : ℕ) (modulelist : List Module) :
    count ≤ (padModuleList count modulelist).length := by
  rw [padModuleList, length_append, length_replicate]
  omega

theorem mem_padModuleList {count : ℕ} {entry : Module}
    (hentry : entry ∈ padModuleList count modulelist) :
    entry ∈ modulelist ∨ modulelist.length < count ∧ entry = missing := by
  rcases mem_append.mp hentry with hmem | hmem
  · exact .inl hmem
  · obtain ⟨hcount, heq⟩ := mem_replicate.mp hmem
    exact .inr ⟨by omega, heq⟩

theorem reorderModuleIdList_names (hdistinct : (ml.map fold).Nodup)
    (modulelist : List Module) :
    ((reorderModuleIdList fold ml modulelist).take ml.length).map
      (fun entry => fold entry.name) = ml.map fold := by
  have hdiffer : Differ fold 0 ml (padModuleList ml.length modulelist) := by
    intro name _ j hj
    exact absurd hj (Nat.not_lt_zero j)
  have hroom := length_padModuleList_ge ml.length modulelist
  exact placeModules_names (by rwa [Nat.zero_add]) hdistinct hdiffer

theorem reorderModuleIdList_bases (hdistinct : (ml.map fold).Nodup)
    (modulelist : List Module) :
    ∀ i : ℕ, ∀ name ∈ ml[i]?,
      ∃ entry ∈ (reorderModuleIdList fold ml modulelist)[i]?,
        fold entry.name = fold name ∧
          (entry ∈ modulelist ∨ entry.base = 0 ∧
            (indexOf fold modulelist name = none ∨
              modulelist.length < ml.length ∧
                fold missing.name = fold name)) := by
  intro i name hname
  have hnames := reorderModuleIdList_names hdistinct modulelist
  obtain ⟨hi, -⟩ := List.getElem?_eq_some_iff.mp hname
  have hat := congrArg (·[i]?) hnames
  simp only [getElem?_map, getElem?_take, hi, if_true,
    Option.mem_def.mp hname, Option.map_some] at hat
  obtain ⟨entry, hentry, hsame⟩ := Option.map_eq_some_iff.mp hat
  refine ⟨entry, hentry, hsame, ?_⟩
  have hmem := (placeModules_perm hdistinct 0
    (padModuleList ml.length modulelist)).mem_iff.mp
      (mem_of_getElem? hentry)
  rcases mem_append.mp hmem with hpadded | hadded
  · rcases mem_padModuleList hpadded with horiginal | ⟨hshort, rfl⟩
    · exact .inl horiginal
    · exact .inr ⟨rfl, .inr ⟨hshort, hsame⟩⟩
  · obtain ⟨added, hfilter, rfl⟩ := mem_map.mp hadded
    have habsent := of_decide_eq_true (mem_filter.mp hfilter).2
    refine .inr ⟨rfl, .inl (indexOf_eq_none_iff.mpr ?_)⟩
    intro other hother
    rw [← hsame]
    exact indexOf_eq_none_iff.mp habsent other (mem_append_left _ hother)

theorem reorderModuleIdList_reordered {ml : List (List UInt8)}
    (hdistinct : (ml.map fold).Nodup) (modulelist : List Module) :
    Reordered fold ml modulelist (reorderModuleIdList fold ml modulelist) where
  modules := placeModules_perm hdistinct 0 _
  names := reorderModuleIdList_names hdistinct modulelist
  bases := reorderModuleIdList_bases hdistinct modulelist

theorem reorderModuleIdList_reordered_short :
    Reordered id [[97], [98]] [{ name := [97], base := 5 }]
      (reorderModuleIdList id [[97], [98]] [{ name := [97], base := 5 }]) :=
  reorderModuleIdList_reordered (by decide) _

theorem reorderModuleIdList_keeps_missing :
    ¬ (reorderModuleIdList id [[97], [98]] [{ name := [97], base := 5 }]).Perm
      ([{ name := [97], base := 5 }] ++
        missingModules id [[97], [98]] [{ name := [97], base := 5 }]) := by
  intro hperm
  exact absurd hperm.length_eq (by decide)

end

end CheatEngine.PointerAddressList
