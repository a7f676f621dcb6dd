import CheatEngine.MemScanSplit

/-!
# The chunks of a first scan

A scanner thread reads the part of a region that it got in chunks of
`buffersize` bytes.  All chunks but the last one of a part are read with the
`variablesize - 1` bytes after them.  `FirstScanmem` and `FirstNextScanmem`
go through a chunk from an offset on in steps of a fixed size.
-/

namespace CheatEngine
namespace MemScan

inductive TFastScanMethod
  | fsmNotAligned
  | fsmAligned
  | fsmLastDigits
deriving DecidableEq, Repr

def hexValue (digits : List (Fin 16)) : ℕ :=
  digits.foldl (fun value (digit : Fin 16) => value * 16 + digit.val) 0

/-- The method and the text of the parameter, as far as `strtoint` takes it.
`typesize` is the alignment that goes with the variable type.  For `vtAll` and
`vtGrouped`, which are left out, `configurescanroutine` sets another one. -/
structure FastScan where
  fastscanmethod : TFastScanMethod
  fastscanparameter : List (Fin 16)
  typesize : ℕ
  parameter_lt : hexValue fastscanparameter < 2 ^ 32
  typesize_pos : 0 < typesize
  typesize_lt : typesize < 2 ^ 31
deriving DecidableEq

namespace FastScan

variable (fast : FastScan)

def fastscanalignment : ℤ :=
  if fast.fastscanparameter = [] then 1
  else (hexValue fast.fastscanparameter : ℤ).bmod (2 ^ 32)

def fastscandigitcount : ℕ := fast.fastscanparameter.length

def fastscanalignsize : ℤ :=
  if fast.fastscanmethod = .fsmLastDigits ∨ fast.fastscanalignment ≠ 0 then
    fast.fastscanalignment
  else
    fast.typesize

def stepsize : ℤ :=
  match fast.fastscanmethod with
  | .fsmNotAligned => 1
  | .fsmAligned => fast.fastscanalignsize
  | .fsmLastDigits => (16 ^ fast.fastscandigitcount : ℤ).bmod (2 ^ 32)

def firstoffset : ℤ :=
  match fast.fastscanmethod with
  | .fsmLastDigits => fast.fastscanalignsize
  | _ => 0

end FastScan

/-- The loop `while (ptruint(p)<=lastmem)`.  It does not end when `p` does not
grow. -/
def positions (stepsize lastmem p : ℤ) : Option (List ℤ) :=
  if p ≤ lastmem then
    if 0 < stepsize then
      (positions stepsize lastmem (p + stepsize)).map (p :: ·)
    else
      none
  else
    some []
termination_by (lastmem + 1 - p).toNat

structure ScanParameters where
  buffersize : ℕ
  variablesize : ℕ
  buffersize_pos : 0 < buffersize
  variablesize_pos : 0 < variablesize
  variablesize_lt : variablesize < 2 ^ 31

/-- What is read at once: `size` bytes of region `index` from `base` on, and
the bytes that are needed after them. -/
structure Chunk where
  index : ℕ
  base : ℕ
  size : ℕ
  requested : ℕ
deriving DecidableEq, Repr

section

variable (parameters : ScanParameters)

def chunks (index toread currentbase : ℕ) : List Chunk :=
  if parameters.buffersize < toread then
    { index
      base := currentbase
      size := parameters.buffersize
      requested := parameters.buffersize + parameters.variablesize - 1 } ::
      chunks index (toread - parameters.buffersize)
        ((currentbase + parameters.buffersize) % 2 ^ 64)
  else
    [{ index, base := currentbase, size := toread, requested := toread }]
termination_by toread
decreasing_by
  have hpos := parameters.buffersize_pos
  omega

def firstscanToread (scanner : Scanner) (index : ℕ)
    (region : MemoryRegion) : ℕ :=
  let toread :=
    if index = scanner.startregion then
      (((region.MemorySize : ℤ) -
        (scanner.startaddress - region.BaseAddress)) % 2 ^ 32).toNat
    else
      region.MemorySize % 2 ^ 32
  if (index : ℤ) = scanner.stopregion ∧
      scanner.stopaddress <
        (scanner.currentbase index region + toread) % 2 ^ 64 then
    (((scanner.stopaddress : ℤ) - scanner.currentbase index region) %
      2 ^ 32).toNat
  else
    toread

def firstscanChunks (work : Workload) (scanner : Scanner) : List Chunk :=
  scanner.regionIndices.flatMap fun index =>
    chunks parameters index
      (firstscanToread scanner index (work.region index))
      (scanner.currentbase index (work.region index))

/-- `toread` of a first next scan, an `integer`.  A part that does not end at
the end of its region is read a little further. -/
def firstnextscanToread (scanner : Scanner) (index : ℕ)
    (region : MemoryRegion) : ℤ :=
  let toread :=
    if index = scanner.startregion then
      ((region.MemorySize : ℤ) -
        (scanner.startaddress - region.BaseAddress)).bmod (2 ^ 32)
    else
      (region.MemorySize : ℤ).bmod (2 ^ 32)
  let toread :=
    if (index : ℤ) = scanner.stopregion ∧
        scanner.stopaddress <
          (scanner.currentbase index region + toread) % 2 ^ 64 then
      ((scanner.stopaddress : ℤ) - scanner.currentbase index region).bmod
        (2 ^ 32)
    else
      toread
  if (scanner.currentbase index region + toread) % 2 ^ 64 <
      ((region.stop : ℤ) - parameters.variablesize) % 2 ^ 64 then
    (toread + (parameters.variablesize - 1)).bmod (2 ^ 32)
  else
    toread

def firstnextscanChunks (work : Workload) (scanner : Scanner) : List Chunk :=
  scanner.regionIndices.flatMap fun index =>
    let toread :=
      firstnextscanToread parameters scanner index (work.region index)
    if 0 < toread then
      chunks parameters index toread.toNat
        (scanner.currentbase index (work.region index))
    else
      []

end

/-- What there is to read: the memory of the target, the saved copy of each
region by address, and the number of bytes that `ReadProcessMemory` gets. -/
structure Target where
  memory : ℕ → UInt8
  previous : ℕ → ℕ → UInt8
  actualread : ℕ → ℕ → ℕ
  actualread_le : ∀ address size, actualread address size ≤ size

section

variable (parameters : ScanParameters) (fast : FastScan)
  (checkroutine : List UInt8 → List UInt8 → Bool) (target : Target)

def valueAt (bytes : ℕ → UInt8) (address : ℕ) : List UInt8 :=
  (List.range parameters.variablesize).map fun i => bytes (address + i)

/-- `FirstScanmem` has no previous value, `FirstNextScanmem` has the one at
the same offset of the old buffer.  `checkroutine` has the negation of an
inverse scan. -/
def isMatch (withPrevious : Bool) (chunk : Chunk) (p : ℤ) : Bool :=
  checkroutine
    (valueAt parameters target.memory (chunk.base + p.toNat))
    (if withPrevious then
      valueAt parameters (target.previous chunk.index)
        (chunk.base + p.toNat)
    else
      [])

def scanmem (withPrevious : Bool) (chunk : Chunk) : Option (List ℕ) :=
  let size : ℤ :=
    (target.actualread chunk.base chunk.requested : ℤ).bmod (2 ^ 32)
  (positions fast.stepsize (size - parameters.variablesize)
      fast.firstoffset).map fun visited =>
    (visited.filter (isMatch parameters checkroutine target withPrevious
      chunk)).map fun p => chunk.base + p.toNat

def scanChunks (withPrevious : Bool) : List Chunk → Option (List ℕ)
  | [] => some []
  | chunk :: rest => do
      let found ←
        scanmem parameters fast checkroutine target withPrevious chunk
      let later ← scanChunks withPrevious rest
      some (found ++ later)

def firstscan (map : MemoryMap) (threadcount : ℕ) : Option (List ℕ) :=
  let work := firstScanWork map threadcount
  scanChunks parameters fast checkroutine target false
    ((work.split threadcount).flatMap (firstscanChunks parameters work))

/-- All threads of the first next scan after an unknown initial value. -/
def firstnextscan (map : MemoryMap) (beyond : MemoryRegion)
    (threadcount : ℕ) : Option (List ℕ) :=
  let work := firstNextScanWork map beyond threadcount
  scanChunks parameters fast checkroutine target true
    ((work.split threadcount).flatMap (firstnextscanChunks parameters work))

end

variable {stepsize lastmem : ℤ}

theorem positions_eq_nil {p : ℤ} (hlast : lastmem < p) :
    positions stepsize lastmem p = some [] := by
  rw [positions, if_neg (by omega)]

theorem positions_eq_none {p : ℤ} (hfirst : p ≤ lastmem)
    (hstep : stepsize ≤ 0) : positions stepsize lastmem p = none := by
  rw [positions, if_pos hfirst, if_neg (by omega)]

structure Steps (stepsize lastmem p : ℤ) (visited : List ℤ) : Prop where
  sorted : visited.Pairwise (· < ·)
  mem_iff : ∀ q, q ∈ visited ↔
    p ≤ q ∧ q ≤ lastmem ∧ stepsize ∣ q - p

theorem steps_nil {p : ℤ} (hlast : lastmem < p) :
    Steps stepsize lastmem p [] := by
  refine ⟨List.Pairwise.nil, fun q => ?_⟩
  simp only [List.not_mem_nil, false_iff]
  omega

theorem Steps.cons {stepsize lastmem p : ℤ} {visited : List ℤ}
    (hsteps : Steps stepsize lastmem (p + stepsize) visited)
    (hstep : 0 < stepsize) (hfirst : p ≤ lastmem) :
    Steps stepsize lastmem p (p :: visited) := by
  constructor
  · rw [List.pairwise_cons]
    refine ⟨fun q hq => ?_, hsteps.sorted⟩
    have hge := ((hsteps.mem_iff q).mp hq).1
    omega
  · intro q
    have hshift : q - (p + stepsize) = q - p - stepsize := by ring
    rw [List.mem_cons, hsteps.mem_iff, hshift, dvd_sub_self_right]
    constructor
    · rintro (rfl | ⟨hge, hle, hdvd⟩)
      · simpa using hfirst
      · exact ⟨by omega, hle, hdvd⟩
    · rintro ⟨hge, hle, hdvd⟩
      rcases hge.eq_or_lt with heq | hlt
      · exact .inl heq.symm
      · have hbound := Int.le_of_dvd (by omega) hdvd
        exact .inr ⟨by omega, hle, hdvd⟩

theorem exists_positions (hstep : 0 < stepsize) (lastmem p : ℤ) :
    ∃ visited, positions stepsize lastmem p = some visited ∧
      Steps stepsize lastmem p visited := by
  induction p using positions.induct stepsize lastmem with
  | case1 p hfirst _ ih =>
    obtain ⟨visited, hvisited, hsteps⟩ := ih
    refine ⟨p :: visited, ?_, hsteps.cons hstep hfirst⟩
    rw [positions, if_pos hfirst, if_pos hstep, hvisited, Option.map_some]
  | case2 p _ hnot => exact absurd hstep hnot
  | case3 p hlast =>
    exact ⟨[], positions_eq_nil (by omega), steps_nil (by omega)⟩

theorem positions_steps {p : ℤ} {visited : List ℤ}
    (hvisited : positions stepsize lastmem p = some visited) :
    Steps stepsize lastmem p visited := by
  by_cases hfirst : p ≤ lastmem
  · have hstep : 0 < stepsize := by
      by_contra hnot
      rw [positions_eq_none hfirst (by omega)] at hvisited
      cases hvisited
    obtain ⟨other, hother, hsteps⟩ := exists_positions hstep lastmem p
    cases hvisited.symm.trans hother
    exact hsteps
  · rw [positions_eq_nil (by omega)] at hvisited
    cases hvisited
    exact steps_nil (by omega)

section

variable {parameters : ScanParameters} {fast : FastScan}
  {checkroutine : List UInt8 → List UInt8 → Bool} {target : Target}
  {withPrevious : Bool}

theorem scanChunks_eq_some {found : Chunk → List ℕ} {list : List Chunk}
    (hfound : ∀ chunk ∈ list,
      scanmem parameters fast checkroutine target withPrevious chunk =
        some (found chunk)) :
    scanChunks parameters fast checkroutine target withPrevious list =
      some (list.flatMap found) := by
  induction list with
  | nil => rfl
  | cons chunk rest ih =>
    obtain ⟨hchunk, hrest⟩ := List.forall_mem_cons.mp hfound
    rw [scanChunks, hchunk, ih hrest]
    rfl

theorem scanmem_of_scanChunks {list : List Chunk} {stored : List ℕ}
    (hstored : scanChunks parameters fast checkroutine target withPrevious
      list = some stored) :
    ∃ found : Chunk → List ℕ, stored = list.flatMap found ∧
      ∀ chunk ∈ list,
        scanmem parameters fast checkroutine target withPrevious chunk =
          some (found chunk) := by
  have hall : ∀ chunk ∈ list, ∃ found,
      scanmem parameters fast checkroutine target withPrevious chunk =
        some found := by
    induction list generalizing stored with
    | nil => exact fun chunk hchunk => nomatch hchunk
    | cons chunk rest ih =>
      rw [scanChunks] at hstored
      obtain ⟨found, hfound, hthen⟩ := Option.bind_eq_some_iff.mp hstored
      obtain ⟨later, hlater, -⟩ := Option.bind_eq_some_iff.mp hthen
      exact List.forall_mem_cons.mpr ⟨⟨found, hfound⟩, ih hlater⟩
  have hfound : ∀ chunk ∈ list,
      scanmem parameters fast checkroutine target withPrevious chunk =
        some ((scanmem parameters fast checkroutine target withPrevious
          chunk).getD []) := by
    intro chunk hchunk
    obtain ⟨found, hsome⟩ := hall chunk hchunk
    rw [hsome, Option.getD_some]
  exact ⟨_, Option.some.inj (hstored.symm.trans (scanChunks_eq_some hfound)),
    hfound⟩

end

end MemScan
end CheatEngine
