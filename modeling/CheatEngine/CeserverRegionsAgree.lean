import CheatEngine.CeserverRegions

/-!
# The two region queries compared

The files of a process are printed from its mappings.  Both queries give the
mappings exactly when no mapping begins at zero and what is left of a line
behind the 297 characters that a turn reads does not look like a mapping.
-/

namespace CheatEngine.CeserverRegions

open List ScannedText

structure Permissions where
  read : Bool
  write : Bool
  exec : Bool
  shared : Bool
deriving DecidableEq

def Permissions.text (permissions : Permissions) : List Char :=
  [if permissions.read then 'r' else '-',
    if permissions.write then 'w' else '-',
    if permissions.exec then 'x' else '-',
    if permissions.shared then 's' else 'p']

/-- A line of information in `smaps`: a name of letters, a colon and a text,
all of which fit the buffer. -/
structure InfoLine where
  name : List Char
  text : List Char
  letters : ∀ char ∈ name,
    'A'.toNat ≤ char.toNat ∧ char.toNat ≤ 'z'.toNat
  oneLine : '\n' ∉ text
  short : name.length + text.length < 198

/-- A mapping, with the end of its line: offset, device, inode and path. -/
structure Mapping where
  start : UInt64
  stop : UInt64
  permissions : Permissions
  rest : List Char
  info : List InfoLine
  start_lt_stop : start < stop
  oneLine : '\n' ∉ rest

structure AddressSpace where
  mappings : List Mapping
  ascending : mappings.Pairwise fun first second =>
    first.stop ≤ second.start

def Mapping.body (mapping : Mapping) : List Char :=
  lowerHex mapping.start ++ '-' :: (lowerHex mapping.stop ++
    ' ' :: (mapping.permissions.text ++ ' ' :: mapping.rest))

def InfoLine.body (info : InfoLine) : List Char :=
  info.name ++ ':' :: info.text

def Mapping.mapsText (mapping : Mapping) : List Char :=
  mapping.body ++ ['\n']

def Mapping.smapsText (mapping : Mapping) : List Char :=
  mapping.mapsText ++ mapping.info.flatMap fun info => info.body ++ ['\n']

def AddressSpace.maps (space : AddressSpace) : List Char :=
  space.mappings.flatMap Mapping.mapsText

def AddressSpace.smaps (space : AddressSpace) : List Char :=
  space.mappings.flatMap Mapping.smapsText

def AddressSpace.files (space : AddressSpace) (pagemap : ℕ → UInt64) :
    ProcFiles where
  maps := some space.maps
  smaps := some space.smaps
  pagemap := some pagemap

def Permissions.protection (permissions : Permissions) : UInt32 :=
  match permissions.exec, permissions.write with
  | true, true => pageExecuteReadwrite
  | true, false => pageExecuteRead
  | false, true => pageReadwrite
  | false, false => pageReadonly

def Mapping.region (mapping : Mapping) : RegionInfo where
  baseaddress := mapping.start
  size := mapping.stop - mapping.start
  protection := mapping.permissions.protection
  type := if mapping.permissions.shared then memMapped else memPrivate

def RegionInfo.stop (region : RegionInfo) : UInt64 :=
  region.baseaddress + region.size

def RegionInfo.Holds (region : RegionInfo) (page : UInt64) : Prop :=
  region.baseaddress ≤ page ∧ page < region.stop

def Implied (regions : List RegionInfo) (page : UInt64) :
    Option RegionInfo → Prop
  | none => ∀ region ∈ regions, region.stop ≤ page
  | some answer =>
    (∃ region ∈ regions, region.Holds page ∧
      answer = { region with
        baseaddress := page
        size := region.stop - page }) ∨
    (∀ region ∈ regions, ¬ region.Holds page) ∧
      ∃ region ∈ regions, page < region.baseaddress ∧
        (∀ other ∈ regions, page < other.baseaddress →
          region.baseaddress ≤ other.baseaddress) ∧
        answer = { baseaddress := page
                   size := region.baseaddress - page
                   protection := pageNoaccess
                   type := 0 }

/-- The regions that the loop of `VirtualQueryEx` goes over; a line without an
end does not stop it. -/
def walkedRegions (unset : List Char) :
    List (List Char) → Except String (List RegionInfo)
  | [] => .ok []
  | x :: more =>
    if ¬ (scanLine x).fits then
      .error "stack buffer overflow"
    else if (scanLine x).stop = 0 then
      walkedRegions unset more
    else do
      let regions ← walkedRegions unset more
      let scanned := scanLine x
      let protectionstring := scanned.protectionstring unset
      return { baseaddress := scanned.start
               size := scanned.stop - scanned.start
               protection := protectionStringToProtection protectionstring
               type := protectionStringToType protectionstring } :: regions

def noFlags : QueryFlags where
  pagedonly := false
  dirtyonly := false
  noshared := false

/-- Both lists are the printed mappings, and every address is answered as the
list of `VirtualQueryExFull` implies. -/
structure QueriesAgree (space : AddressSpace) (pagemap : ℕ → UInt64)
    (unset : List Char) : Prop where
  full : virtualQueryExFull (space.files pagemap) noFlags =
    some (space.mappings.map Mapping.region)
  walked : walkedRegions unset (lines space.maps) =
    .ok (space.mappings.map Mapping.region)
  answers : ∀ address, ∃ answer,
    virtualQueryEx (space.files pagemap) unset address = .ok answer ∧
      ∀ regions,
        virtualQueryExFull (space.files pagemap) noFlags = some regions →
          Implied regions (pageOf address) (answer.map QueryAnswer.rinfo)

def Mapping.leftovers (mapping : Mapping) : List (List Char) :=
  (lines mapping.mapsText).tail

structure Harmless (x : List Char) : Prop where
  fits : (scanLine x).fits = true
  stop : (scanLine x).stop = 0
  start : (scanLine x).word ≠ none → (scanLine x).start = 0

theorem nextLine_line {body : List Char} (hbody : '\n' ∉ body)
    (more : List Char) :
    nextLine (body ++ '\n' :: more) =
      if body.length < 199 then
        (body ++ ['\n'], more)
      else if body.length < 297 then
        (body.take 199, more)
      else
        (body.take 199, body.drop 297 ++ '\n' :: more) := by
  rw [nextLine, fgets_line hbody]
  by_cases hshort : body.length < 199
  · simp [hshort]
  · have hlast : (body.take 199).getLast? ≠ some '\n' := fun heq =>
      hbody (mem_of_mem_take (mem_of_getLast? heq))
    have hdrop : '\n' ∉ body.drop 199 := fun hmem =>
      hbody (mem_of_mem_drop hmem)
    rw [if_neg hshort, if_neg hshort]
    dsimp only
    rw [if_neg hlast, fgets_line hdrop, length_drop, drop_drop]
    by_cases hlong : body.length < 297
    · rw [if_pos (by omega), if_pos hlong]
    · rw [if_neg (by omega), if_neg hlong]

variable {maps : List Char}

theorem nextLine_length (hmaps : maps ≠ []) :
    (nextLine maps).2.length < maps.length := by
  have hfirst : (fgets 199 maps).2.length < maps.length := by
    cases maps with
    | nil => exact absurd rfl hmaps
    | cons char text =>
      rw [fgets]
      split
      · exact Nat.lt_succ_self _
      · exact Nat.lt_succ_of_le (fgets_length_le 198 text)
  rw [nextLine]
  dsimp only
  split
  · exact hfirst
  · exact lt_of_le_of_lt (fgets_length_le 98 _) hfirst

theorem linesRead_succ (hmaps : maps ≠ []) (turns : ℕ) :
    linesRead (turns + 1) maps =
      (nextLine maps).1 :: linesRead turns (nextLine maps).2 := by
  cases maps with
  | nil => exact absurd rfl hmaps
  | cons char text => rw [linesRead]; simp

theorem linesRead_of_le {turns : ℕ} (hturns : maps.length ≤ turns) :
    linesRead turns maps = lines maps := by
  rw [lines]
  generalize hlength : maps.length = length at hturns
  induction length using Nat.strong_induction_on generalizing maps turns with
  | _ length ih =>
    cases maps with
    | nil => cases turns <;> cases length <;> rfl
    | cons char text =>
      subst hlength
      have hne := cons_ne_nil char text
      have hless := nextLine_length hne
      obtain ⟨turns, rfl⟩ : ∃ fewer, turns = fewer + 1 :=
        ⟨turns - 1, by rw [length_cons] at hturns; omega⟩
      rw [length_cons] at hless hturns
      rw [length_cons, linesRead_succ hne, linesRead_succ hne,
        ih _ (by rw [length_cons]; exact hless) rfl
          (by omega : _ ≤ turns),
        ih _ (by rw [length_cons]; exact hless) rfl
          (by omega : _ ≤ text.length)]

theorem lines_of_ne_nil (hmaps : maps ≠ []) :
    lines maps = (nextLine maps).1 :: lines (nextLine maps).2 := by
  have hless := nextLine_length hmaps
  cases maps with
  | nil => exact absurd rfl hmaps
  | cons char text =>
    rw [length_cons] at hless
    rw [lines, length_cons, linesRead_succ hmaps, linesRead_of_le (by omega)]

theorem lines_append {body : List Char} (hbody : '\n' ∉ body)
    (more : List Char) :
    lines (body ++ '\n' :: more) = lines (body ++ ['\n']) ++ lines more := by
  generalize hlength : body.length = length
  induction length using Nat.strong_induction_on generalizing body with
  | _ length ih =>
    subst hlength
    rw [lines_of_ne_nil (by simp : body ++ '\n' :: more ≠ []),
      lines_of_ne_nil (by simp : body ++ ['\n'] ≠ []),
      nextLine_line hbody more, nextLine_line hbody []]
    split
    · simp [lines, linesRead]
    · split
      · simp [lines, linesRead]
      · have hdrop : '\n' ∉ body.drop 297 := fun hmem =>
          hbody (mem_of_mem_drop hmem)
        have hless : (body.drop 297).length < body.length := by
          rw [length_drop]
          omega
        dsimp only
        rw [ih _ hless hdrop rfl, cons_append]

/-! ## What is read of a mapping -/

section

variable {mapping : Mapping}

theorem lowerHex_length_le (value : UInt64) :
    (lowerHex value).length ≤ 16 := by
  have hlog : Nat.log2 value.toNat < 64 := by
    rcases Nat.eq_zero_or_pos value.toNat with hzero | hpositive
    · rw [hzero]
      decide
    · exact (Nat.log2_lt hpositive.ne').mpr value.toNat_lt
  rw [lowerHex, length_map, HexText.intToHex, HexText.hexDigits_length,
    HexText.digitCount]
  omega

theorem newline_notMem_lowerHex (value : UInt64) : '\n' ∉ lowerHex value :=
  fun hmem => (lowerHex_mem hmem).2.2.2.2.2.1 rfl

theorem permissions_text (permissions : Permissions) :
    '\n' ∉ permissions.text ∧
      (∀ char ∈ permissions.text, isSpace char = false) ∧
      protectionStringToProtection permissions.text = permissions.protection ∧
      protectionStringToType permissions.text =
        if permissions.shared then memMapped else memPrivate := by
  have hspaces : permissions.text.all (fun char => !isSpace char) = true := by
    rcases permissions with ⟨read, write, exec, shared⟩
    cases read <;> cases write <;> cases exec <;> cases shared <;> decide
  refine ⟨?_, fun char hmem => ?_, ?_⟩
  · rcases permissions with ⟨read, write, exec, shared⟩
    cases read <;> cases write <;> cases exec <;> cases shared <;> decide
  · simpa using all_eq_true.mp hspaces char hmem
  · rcases permissions with ⟨read, write, exec, shared⟩
    cases read <;> cases write <;> cases exec <;> cases shared <;> decide

theorem newline_notMem_body (mapping : Mapping) : '\n' ∉ mapping.body := by
  have hpermissions := (permissions_text mapping.permissions).1
  have hrest := mapping.oneLine
  simp only [Mapping.body, mem_append, mem_cons, not_or]
  exact ⟨newline_notMem_lowerHex _, by decide, newline_notMem_lowerHex _,
    by decide, hpermissions, by decide, hrest⟩

def Mapping.header (mapping : Mapping) : List Char :=
  lowerHex mapping.start ++ '-' :: (lowerHex mapping.stop ++
    ' ' :: (mapping.permissions.text ++ [' ']))

theorem body_eq_header_append (mapping : Mapping) :
    mapping.body = mapping.header ++ mapping.rest := by
  simp [Mapping.body, Mapping.header]

theorem header_length_le (mapping : Mapping) : mapping.header.length ≤ 39 := by
  have hstart := lowerHex_length_le mapping.start
  have hstop := lowerHex_length_le mapping.stop
  simp only [Mapping.header, Permissions.text, length_append,
    length_cons, length_nil]
  omega

theorem scanWord_permissions (permissions : Permissions) (more : List Char) :
    scanWord (' ' :: (permissions.text ++ ' ' :: more)) =
      some permissions.text := by
  have hspaces := (permissions_text permissions).2.1
  have hword : ∀ char ∈ permissions.text, (!isSpace char) = true := by
    intro char hchar
    rw [hspaces char hchar]
    rfl
  have hskip : skipSpaces (' ' :: (permissions.text ++ ' ' :: more)) =
      permissions.text ++ ' ' :: more := by
    rw [skipSpaces, dropWhile_cons_of_pos (by decide)]
    cases htext : permissions.text with
    | nil => simp [Permissions.text] at htext
    | cons char text =>
      have hchar := hspaces char (htext ▸ mem_cons_self)
      rw [cons_append, dropWhile_cons_of_neg]
      rw [hchar]
      exact Bool.false_ne_true
  have htake : (permissions.text ++ ' ' :: more).takeWhile
      (fun char => !isSpace char) = permissions.text := by
    rw [takeWhile_append_of_pos hword,
      takeWhile_cons_of_neg (by decide), append_nil]
  rw [scanWord, hskip, htake]
  rfl

theorem scanLine_header (mapping : Mapping) (more : List Char) :
    scanLine (mapping.header ++ more) =
      { start := mapping.start
        stop := mapping.stop
        word := some mapping.permissions.text } := by
  have htext : mapping.header ++ more = lowerHex mapping.start ++
      '-' :: (lowerHex mapping.stop ++
        ' ' :: (mapping.permissions.text ++ ' ' :: more)) := by
    simp [Mapping.header]
  rw [htext, scanLine, scanHex_lowerHex _ _ (by decide) (by decide)
    (by decide)]
  simp only
  rw [scanHex_lowerHex _ _ (by decide) (by decide) (by decide)]
  dsimp only
  rw [scanWord_permissions]

theorem lines_mapsText (mapping : Mapping) :
    ∃ more, lines mapping.mapsText =
      (mapping.header ++ more) :: mapping.leftovers := by
  have hne : mapping.mapsText ≠ [] := by simp [Mapping.mapsText]
  have hlines := lines_of_ne_nil hne
  rw [Mapping.leftovers, hlines]
  rw [Mapping.mapsText, nextLine_line (newline_notMem_body mapping)]
  have hheader := header_length_le mapping
  have htake : mapping.body.take 199 =
      mapping.header ++ mapping.rest.take (199 - mapping.header.length) := by
    rw [body_eq_header_append, take_append, take_of_length_le (by omega)]
  split
  · exact ⟨mapping.rest ++ ['\n'], by
      rw [body_eq_header_append, append_assoc]
      rfl⟩
  · split
    · exact ⟨_, by rw [htake]; rfl⟩
    · exact ⟨_, by rw [htake]; rfl⟩

theorem lines_maps_append (mapping : Mapping) (more : List Char) :
    lines (mapping.mapsText ++ more) =
      lines mapping.mapsText ++ lines more := by
  rw [Mapping.mapsText, append_assoc]
  exact lines_append (newline_notMem_body mapping) more

theorem lines_maps (space : AddressSpace) :
    lines space.maps =
      space.mappings.flatMap fun mapping => lines mapping.mapsText := by
  rw [AddressSpace.maps]
  induction space.mappings with
  | nil => rfl
  | cons mapping mappings ih =>
    rw [flatMap_cons, flatMap_cons, lines_maps_append, ih]

end

section

variable (info : InfoLine)

theorem infoLine_char {char : Char} (hchar : char ∈ info.name ∨ char = ':') :
    char ≠ '-' ∧ char ≠ '+' ∧ char ≠ '0' ∧ char ≠ '\n' ∧
      isSpace char = false := by
  rcases hchar with hmem | rfl
  · obtain ⟨hlow, hhigh⟩ := info.letters char hmem
    have hlow' : 65 ≤ char.toNat := hlow
    refine ⟨?_, ?_, ?_, ?_, ?_⟩
    · rintro rfl
      exact absurd hlow' (by decide)
    · rintro rfl
      exact absurd hlow' (by decide)
    · rintro rfl
      exact absurd hlow' (by decide)
    · rintro rfl
      exact absurd hlow' (by decide)
    · have hspace : char ≠ ' ' := by
        rintro rfl
        exact absurd hlow' (by decide)
      simp only [isSpace, Bool.or_eq_false_iff, beq_eq_false_iff_ne,
        Bool.and_eq_false_iff, decide_eq_false_iff_not]
      exact ⟨hspace, Or.inr (by omega)⟩
  · decide

theorem scanLine_info (more : List Char) :
    (scanLine (info.body ++ more)).word = none := by
  have hfirst : ∃ char text, info.body ++ more = char :: text ∧
      (char ∈ info.name ∨ char = ':') := by
    rw [InfoLine.body]
    cases hname : info.name with
    | nil => exact ⟨_, _, rfl, Or.inr rfl⟩
    | cons char name => exact ⟨_, _, rfl, Or.inl mem_cons_self⟩
  have hbehind : ∃ char text,
      (info.body ++ more).dropWhile isHexDigit = char :: text ∧
        (char ∈ info.name ∨ char = ':') := by
    rw [InfoLine.body, append_assoc, dropWhile_append]
    split
    · exact ⟨':', info.text ++ more, by
        rw [cons_append, dropWhile_cons_of_neg (by decide)],
        Or.inr rfl⟩
    · rename_i hrest
      cases hdrop : info.name.dropWhile isHexDigit with
      | nil => simp [hdrop] at hrest
      | cons char name =>
        refine ⟨char, _, rfl, Or.inl ?_⟩
        exact (dropWhile_suffix isHexDigit).subset
          (hdrop ▸ mem_cons_self)
  obtain ⟨first, text, hbody, hchar⟩ := hfirst
  obtain ⟨hminus, hplus, hzero, -, hspace⟩ := infoLine_char info hchar
  have hskip : skipSpaces (info.body ++ more) = info.body ++ more := by
    rw [hbody, skipSpaces, dropWhile_cons_of_neg]
    rw [hspace]
    exact Bool.false_ne_true
  have hsign : scanSign (info.body ++ more) = (false, info.body ++ more) := by
    rw [hbody, scanSign.eq_def]
    split
    · rename_i heq
      exact absurd (List.cons.inj heq).1 hplus
    · rename_i heq
      exact absurd (List.cons.inj heq).1 hminus
    · rfl
  have hnoHex : skipHexPrefix (info.body ++ more) = info.body ++ more := by
    rw [hbody, skipHexPrefix.eq_def]
    split
    · rename_i heq
      exact absurd (List.cons.inj heq).1 hzero
    · rename_i heq
      exact absurd (List.cons.inj heq).1 hzero
    · rfl
  obtain ⟨next, rest, hdrop, hnext⟩ := hbehind
  have hdash := (infoLine_char info hnext).1
  rw [scanLine, scanHex, hskip, hsign]
  dsimp only
  rw [hnoHex, hdrop]
  cases HexText.parseHex ((info.body ++ more).takeWhile isHexDigit) with
  | none => rfl
  | some value =>
    rw [Option.map_some]
    split
    · rfl
    · rename_i heq
      exact absurd (List.cons.inj (Prod.mk.inj (Option.some.inj heq)).2).1
        hdash
    · rfl

theorem lines_info (more : List Char) :
    lines (info.body ++ '\n' :: more) =
      (info.body ++ ['\n']) :: lines more := by
  have hbody : '\n' ∉ info.body := by
    rw [InfoLine.body, mem_append, mem_cons, not_or, not_or]
    refine ⟨fun hmem => ?_, by decide, info.oneLine⟩
    exact (infoLine_char info (Or.inl hmem)).2.2.2.1 rfl
  have hshort : info.body.length < 199 := by
    have hlength := info.short
    rw [InfoLine.body, length_append, length_cons]
    omega
  rw [lines_of_ne_nil (by simp), nextLine_line hbody, if_pos hshort]

end

def headerRegions (x : List Char) : List RegionInfo :=
  match (scanLine x).word with
  | none => []
  | some temp =>
    if (scanLine x).start = 0 then
      []
    else
      [{ baseaddress := (scanLine x).start
         size := (scanLine x).stop - (scanLine x).start
         protection := protectionStringToProtection (temp.take 24)
         type := protectionStringToType (temp.take 24) }]

section

variable (pagemap : ℕ → UInt64)

variable (block : Block)

theorem finishBlock_entries :
    (finishBlock noFlags pagemap block).entries =
      block.r.entries ++
        if block.start = 0 then
          []
        else
          [{ baseaddress := block.start
             size := block.stop - block.start
             protection := protectionStringToProtection block.protectionstring
             type := protectionStringToType block.protectionstring }] := by
  rw [finishBlock]
  by_cases hstart : block.start = 0
  · simp [hstart]
  · simp [hstart, noFlags, addToRegionList]

theorem fullLine_entries (x : List Char) :
    (finishBlock noFlags pagemap (fullLine noFlags pagemap block x)).entries =
      (finishBlock noFlags pagemap block).entries ++ headerRegions x := by
  rw [fullLine, headerRegions]
  cases (scanLine x).word with
  | none => simp [noFlags]
  | some temp => exact finishBlock_entries pagemap _

theorem fullLines_entries (xs : List (List Char)) :
    (finishBlock noFlags pagemap
        (xs.foldl (fullLine noFlags pagemap) block)).entries =
      (finishBlock noFlags pagemap block).entries ++
        xs.flatMap headerRegions := by
  induction xs generalizing block with
  | nil => simp
  | cons x xs ih =>
    rw [foldl_cons, ih, fullLine_entries, flatMap_cons, append_assoc]

theorem virtualQueryExFull_eq (space : AddressSpace) :
    virtualQueryExFull (space.files pagemap) noFlags =
      some ((lines space.smaps).flatMap headerRegions) := by
  let first : Block :=
    { start := 0, stop := 0, protectionstring := [], isdirty := false,
      r := emptyList noFlags }
  have hfirst : (finishBlock noFlags pagemap first).entries = [] := rfl
  have hlines := fullLines_entries pagemap first (lines space.smaps)
  rw [hfirst, nil_append] at hlines
  exact congrArg some hlines

theorem headerRegions_info (info : InfoLine) (more : List Char) :
    headerRegions (info.body ++ more) = [] := by
  rw [headerRegions, scanLine_info]

theorem headerRegions_header (mapping : Mapping) (more : List Char) :
    headerRegions (mapping.header ++ more) =
      if mapping.start = 0 then [] else [mapping.region] := by
  obtain ⟨-, -, hprotection, htype⟩ := permissions_text mapping.permissions
  have htake : mapping.permissions.text.take 24 = mapping.permissions.text :=
    take_of_length_le (show 4 ≤ 24 by decide)
  rw [headerRegions, scanLine_header]
  dsimp only
  rw [htake, hprotection, htype]
  rfl

theorem headerRegions_baseaddress {x : List Char} {region : RegionInfo}
    (hregion : region ∈ headerRegions x) : region.baseaddress ≠ 0 := by
  rw [headerRegions] at hregion
  split at hregion
  · exact absurd hregion not_mem_nil
  · split at hregion
    · exact absurd hregion not_mem_nil
    · rename_i hstart
      rw [mem_singleton.mp hregion]
      exact hstart

theorem headerRegions_smapsText (mapping : Mapping) (more : List Char) :
    (lines (mapping.smapsText ++ more)).flatMap headerRegions =
      (if mapping.start = 0 then [] else [mapping.region]) ++
        mapping.leftovers.flatMap headerRegions ++
          (lines more).flatMap headerRegions := by
  obtain ⟨rest, hlines⟩ := lines_mapsText mapping
  have hinfo : ∀ info : List InfoLine,
      (lines ((info.flatMap fun info => info.body ++ ['\n']) ++
          more)).flatMap headerRegions =
        (lines more).flatMap headerRegions := by
    intro info
    induction info with
    | nil => rfl
    | cons first info ih =>
      rw [flatMap_cons, append_assoc, append_assoc, singleton_append,
        lines_info, flatMap_cons, headerRegions_info, nil_append, ih]
  rw [Mapping.smapsText, append_assoc, lines_maps_append, hlines,
    flatMap_append, hinfo, flatMap_cons, headerRegions_header]

theorem headerRegions_smaps (space : AddressSpace) :
    (lines space.smaps).flatMap headerRegions =
      space.mappings.flatMap fun mapping =>
        (if mapping.start = 0 then [] else [mapping.region]) ++
          mapping.leftovers.flatMap headerRegions := by
  rw [AddressSpace.smaps]
  induction space.mappings with
  | nil => rfl
  | cons mapping mappings ih =>
    rw [flatMap_cons, flatMap_cons, headerRegions_smapsText, ih]

end

section

variable (unset : List Char)

def walkedLine (x : List Char) : List RegionInfo :=
  if (scanLine x).stop = 0 then
    []
  else
    [{ baseaddress := (scanLine x).start
       size := (scanLine x).stop - (scanLine x).start
       protection := protectionStringToProtection
        ((scanLine x).protectionstring unset)
       type := protectionStringToType
        ((scanLine x).protectionstring unset) }]

theorem walkedRegions_ok_iff (xs : List (List Char))
    (regions : List RegionInfo) :
    walkedRegions unset xs = .ok regions ↔
      (∀ x ∈ xs, (scanLine x).fits = true) ∧
        xs.flatMap (walkedLine unset) = regions := by
  induction xs generalizing regions with
  | nil => simp [walkedRegions]
  | cons x xs ih =>
    rw [walkedRegions, flatMap_cons, walkedLine]
    by_cases hfits : (scanLine x).fits = true
    · rw [if_neg fun hnot => hnot hfits, forall_mem_cons]
      by_cases hstop : (scanLine x).stop = 0
      · rw [if_pos hstop, if_pos hstop, ih, nil_append]
        simp [hfits]
      · rw [if_neg hstop, if_neg hstop]
        cases hmore : walkedRegions unset xs with
        | error message =>
          refine iff_of_false (fun heq => by cases heq) ?_
          rintro ⟨⟨-, hall⟩, -⟩
          have hok := (ih _).mpr ⟨hall, rfl⟩
          rw [hmore] at hok
          cases hok
        | ok found =>
          obtain ⟨hall, hfound⟩ := (ih found).mp hmore
          rw [hfound]
          simp only [hfits, true_and]
          constructor
          · intro heq
            cases heq
            exact ⟨hall, rfl⟩
          · rintro ⟨-, rfl⟩
            rfl
    · rw [if_pos hfits]
      refine iff_of_false (fun heq => by cases heq) ?_
      rintro ⟨hall, -⟩
      exact hfits (hall x mem_cons_self)

theorem walkedLine_header (mapping : Mapping) (more : List Char) :
    walkedLine unset (mapping.header ++ more) = [mapping.region] := by
  obtain ⟨-, -, hprotection, htype⟩ := permissions_text mapping.permissions
  have hstop : mapping.stop ≠ 0 := by
    intro hzero
    have hlt := mapping.start_lt_stop
    rw [hzero, UInt64.lt_iff_toNat_lt] at hlt
    exact absurd hlt (Nat.not_lt_zero _)
  rw [walkedLine, scanLine_header, if_neg hstop]
  dsimp only [Scanned.protectionstring, Option.getD_some]
  rw [hprotection, htype]
  rfl

theorem fits_header (mapping : Mapping) (more : List Char) :
    (scanLine (mapping.header ++ more)).fits = true := by
  rw [scanLine_header]
  rfl

theorem walkedLine_maps (space : AddressSpace) :
    (lines space.maps).flatMap (walkedLine unset) =
      space.mappings.flatMap fun mapping =>
        mapping.region :: mapping.leftovers.flatMap (walkedLine unset) := by
  rw [lines_maps, flatMap_assoc]
  congr 1
  funext mapping
  obtain ⟨rest, hlines⟩ := lines_mapsText mapping
  rw [hlines, flatMap_cons, walkedLine_header]
  rfl

end

/-! ## The answers -/

section

variable {unset : List Char} {page : UInt64}

theorem queryLines_append {xs : List (List Char)}
    (hxs : ∀ x ∈ xs, Harmless x) (more : List (List Char)) :
    queryLines unset page (xs ++ more) = queryLines unset page more := by
  induction xs with
  | nil => rfl
  | cons x xs ih =>
    have hx := hxs x mem_cons_self
    have hstop : ¬ (scanLine x).stop > page := by
      rw [hx.stop, gt_iff_lt, UInt64.lt_iff_toNat_lt]
      exact Nat.not_lt_zero _
    rw [cons_append, queryLines, if_neg fun hnot => hnot hx.fits, if_neg hstop]
    exact ih fun other hother => hxs other (mem_cons_of_mem _ hother)

def Mapping.answer (mapping : Mapping) (page : UInt64) : RegionInfo :=
  if page ≥ mapping.start then
    { mapping.region with
      baseaddress := page
      size := mapping.stop - page }
  else
    { baseaddress := page
      size := mapping.start - page
      protection := pageNoaccess
      type := 0 }

theorem answerLine_header (mapping : Mapping) (more : List Char) :
    (answerLine unset page (mapping.header ++ more)).rinfo =
      mapping.answer page := by
  obtain ⟨-, -, hprotection, htype⟩ := permissions_text mapping.permissions
  rw [answerLine, scanLine_header]
  dsimp only [Scanned.protectionstring, Option.getD_some]
  rw [hprotection, htype]
  rfl

theorem queryLines_maps {mappings : List Mapping}
    (hharmless : ∀ mapping ∈ mappings, ∀ x ∈ mapping.leftovers, Harmless x) :
    ∃ answer, queryLines unset page
        (mappings.flatMap fun mapping => lines mapping.mapsText) =
          .ok answer ∧
      answer.map QueryAnswer.rinfo =
        (mappings.find? fun mapping => page < mapping.stop).map
          fun mapping => mapping.answer page := by
  induction mappings with
  | nil => exact ⟨none, rfl, rfl⟩
  | cons mapping mappings ih =>
    obtain ⟨more, hlines⟩ := lines_mapsText mapping
    rw [flatMap_cons, hlines, cons_append, queryLines,
      if_neg fun hnot => hnot (fits_header mapping more), scanLine_header]
    dsimp only
    by_cases hstop : mapping.stop > page
    · have habove : decide (page < mapping.stop) = true :=
        decide_eq_true hstop
      rw [if_pos hstop, find?_cons, habove]
      refine ⟨_, rfl, ?_⟩
      rw [Option.map_some, Option.map_some, answerLine_header]
    · have hbelow : decide (page < mapping.stop) = false :=
        decide_eq_false hstop
      rw [if_neg hstop, find?_cons, hbelow,
        queryLines_append (hharmless mapping mem_cons_self)]
      exact ih fun other hother =>
        hharmless other (mem_cons_of_mem _ hother)

theorem region_stop (mapping : Mapping) :
    mapping.region.stop = mapping.stop := by
  rw [RegionInfo.stop, Mapping.region]
  grind

theorem implied_find {space : AddressSpace} :
    Implied (space.mappings.map Mapping.region) page
      ((space.mappings.find? fun mapping => page < mapping.stop).map
        fun mapping => mapping.answer page) := by
  cases hfind : space.mappings.find? fun mapping =>
      decide (page < mapping.stop) with
  | none =>
    rw [find?_eq_none] at hfind
    intro region hregion
    obtain ⟨mapping, hmapping, rfl⟩ := mem_map.mp hregion
    rw [region_stop]
    exact UInt64.not_lt.mp fun hlt =>
      hfind mapping hmapping (decide_eq_true hlt)
  | some mapping =>
    obtain ⟨hlt, before, behind, hmappings, hbefore⟩ :=
      find?_eq_some_iff_append.mp hfind
    have hstop := of_decide_eq_true hlt
    have hmem : mapping.region ∈ space.mappings.map Mapping.region := by
      rw [hmappings]
      simp
    rw [Option.map_some]
    by_cases hstart : page ≥ mapping.start
    · left
      refine ⟨_, hmem, ⟨hstart, ?_⟩, ?_⟩
      · rw [region_stop]
        exact hstop
      · rw [Mapping.answer, if_pos hstart, region_stop]
    · right
      have hapart := space.ascending
      rw [hmappings, pairwise_append] at hapart
      have hbehind := (pairwise_cons.mp hapart.2.1).1
      have hplace : ∀ other ∈ space.mappings, other.stop ≤ page ∨
          (page < other.start ∧ mapping.start ≤ other.start) := by
        intro other hother
        rw [hmappings, mem_append, mem_cons] at hother
        rw [ge_iff_le, UInt64.not_le] at hstart
        rcases hother with hother | rfl | hother
        · left
          have hnot := hbefore other hother
          rw [Bool.not_eq_true', decide_eq_false_iff_not] at hnot
          exact UInt64.not_lt.mp hnot
        · exact Or.inr ⟨hstart, UInt64.le_refl _⟩
        · have hle := UInt64.le_trans
            (UInt64.le_of_lt mapping.start_lt_stop)
            (hbehind other hother)
          exact Or.inr ⟨UInt64.lt_of_lt_of_le hstart hle, hle⟩
      refine ⟨?_, mapping.region, hmem, UInt64.not_le.mp hstart, ?_, ?_⟩
      · intro region hregion hholds
        obtain ⟨other, hother, rfl⟩ := mem_map.mp hregion
        obtain ⟨hlow, hhigh⟩ := hholds
        rw [region_stop] at hhigh
        rcases hplace other hother with hbelow | ⟨habove, -⟩
        · exact UInt64.not_le.mpr hhigh hbelow
        · exact UInt64.not_le.mpr habove hlow
      · intro region hregion habove
        obtain ⟨other, hother, rfl⟩ := mem_map.mp hregion
        rcases hplace other hother with hbelow | ⟨-, hle⟩
        · have hbetween := UInt64.lt_of_lt_of_le
            (UInt64.lt_trans habove other.start_lt_stop) hbelow
          exact absurd hbetween (UInt64.lt_irrefl _)
        · exact hle
      · rw [Mapping.answer, if_neg hstart]
        rfl

end

/-! ## When the queries agree -/

theorem tails_eq_nil {α β : Type*} {head : α → β} {tail : α → List β}
    {xs : List α}
    (hflat : (xs.flatMap fun x => head x :: tail x) = xs.map head) :
    ∀ x ∈ xs, tail x = [] := by
  have hlength := congrArg List.length hflat
  clear hflat
  have hle : ∀ ys : List α,
      ys.length ≤ (ys.flatMap fun x => head x :: tail x).length := by
    intro ys
    induction ys with
    | nil => exact le_rfl
    | cons y ys ih =>
      simp only [flatMap_cons, length_append, length_cons]
      omega
  induction xs with
  | nil => simp
  | cons x xs ih =>
    have hrest := hle xs
    simp only [flatMap_cons, length_append, length_cons,
      map_cons, length_map] at hlength hrest ih
    refine forall_mem_cons.mpr ⟨?_, ih (by omega)⟩
    exact eq_nil_of_length_eq_zero (by omega)

section

variable {space : AddressSpace} {pagemap : ℕ → UInt64} {unset : List Char}

theorem QueriesAgree.start_ne_zero
    (hagree : QueriesAgree space pagemap unset) :
    ∀ mapping ∈ space.mappings, mapping.start ≠ 0 := by
  have hfull := hagree.full
  rw [virtualQueryExFull_eq, Option.some.injEq] at hfull
  intro mapping hmapping
  have hmem : mapping.region ∈
      (lines space.smaps).flatMap headerRegions := by
    rw [hfull]
    exact mem_map_of_mem hmapping
  obtain ⟨x, -, hregion⟩ := mem_flatMap.mp hmem
  exact headerRegions_baseaddress hregion

theorem QueriesAgree.harmless (hagree : QueriesAgree space pagemap unset) :
    ∀ mapping ∈ space.mappings, ∀ x ∈ mapping.leftovers, Harmless x := by
  have hstart := hagree.start_ne_zero
  have hfull := hagree.full
  rw [virtualQueryExFull_eq, Option.some.injEq, headerRegions_smaps] at hfull
  have hheads : (space.mappings.flatMap fun mapping =>
        (if mapping.start = 0 then [] else [mapping.region]) ++
          mapping.leftovers.flatMap headerRegions) =
      space.mappings.flatMap fun mapping =>
        mapping.region :: mapping.leftovers.flatMap headerRegions :=
    flatMap_congr fun mapping hmapping => by
      rw [if_neg (hstart mapping hmapping), singleton_append]
  rw [hheads] at hfull
  have hlisted := tails_eq_nil hfull
  obtain ⟨hfits, hwalked⟩ := (walkedRegions_ok_iff _ _ _).mp hagree.walked
  rw [walkedLine_maps] at hwalked
  have hpassed := tails_eq_nil hwalked
  intro mapping hmapping x hx
  have hheader := flatMap_eq_nil_iff.mp (hlisted mapping hmapping) x hx
  have hline := flatMap_eq_nil_iff.mp (hpassed mapping hmapping) x hx
  refine ⟨?_, ?_, fun hword => ?_⟩
  · apply hfits
    rw [lines_maps]
    exact mem_flatMap.mpr ⟨mapping, hmapping, mem_of_mem_tail hx⟩
  · by_contra hstop
    rw [walkedLine, if_neg hstop] at hline
    exact cons_ne_nil _ _ hline
  · by_contra hnonzero
    rw [headerRegions] at hheader
    cases htemp : (scanLine x).word with
    | none => exact hword htemp
    | some temp =>
      rw [htemp] at hheader
      dsimp only at hheader
      rw [if_neg hnonzero] at hheader
      exact cons_ne_nil _ _ hheader

theorem Harmless.headerRegions_eq_nil {x : List Char} (hx : Harmless x) :
    headerRegions x = [] := by
  rw [headerRegions]
  cases htemp : (scanLine x).word with
  | none => rfl
  | some temp =>
    have hstart := hx.start (by rw [htemp]; exact Option.some_ne_none temp)
    exact if_pos hstart

theorem queriesAgree_of_harmless
    (hstart : ∀ mapping ∈ space.mappings, mapping.start ≠ 0)
    (hharmless : ∀ mapping ∈ space.mappings,
      ∀ x ∈ mapping.leftovers, Harmless x) :
    QueriesAgree space pagemap unset := by
  have hfull : virtualQueryExFull (space.files pagemap) noFlags =
      some (space.mappings.map Mapping.region) := by
    rw [virtualQueryExFull_eq, headerRegions_smaps, Option.some.injEq,
      map_eq_flatMap]
    refine flatMap_congr fun mapping hmapping => ?_
    rw [if_neg (hstart mapping hmapping),
      flatMap_eq_nil_iff.mpr fun x hx =>
        (hharmless mapping hmapping x hx).headerRegions_eq_nil,
      append_nil]
  refine ⟨hfull, ?_, fun address => ?_⟩
  · rw [walkedRegions_ok_iff, walkedLine_maps, map_eq_flatMap]
    constructor
    · intro x hx
      rw [lines_maps, mem_flatMap] at hx
      obtain ⟨mapping, hmapping, hx⟩ := hx
      obtain ⟨more, hlines⟩ := lines_mapsText mapping
      rw [hlines, mem_cons] at hx
      rcases hx with rfl | hx
      · exact fits_header mapping more
      · exact (hharmless mapping hmapping x hx).fits
    · refine flatMap_congr fun mapping hmapping => ?_
      have hnone : mapping.leftovers.flatMap (walkedLine unset) = [] :=
        flatMap_eq_nil_iff.mpr fun x hx =>
          if_pos (hharmless mapping hmapping x hx).stop
      rw [hnone]
  · obtain ⟨answer, hquery, hinfo⟩ :=
      @queryLines_maps unset (pageOf address) _ hharmless
    refine ⟨answer, ?_, fun regions hregions => ?_⟩
    · rw [virtualQueryEx, AddressSpace.files]
      dsimp only
      rw [lines_maps]
      exact hquery
    · rw [hfull, Option.some.injEq] at hregions
      rw [← hregions, hinfo]
      exact implied_find

/-- The queries agree exactly when no mapping begins at zero and what a line
leaves behind does not look like a mapping. -/
theorem queriesAgree_iff (space : AddressSpace) (pagemap : ℕ → UInt64)
    (unset : List Char) :
    QueriesAgree space pagemap unset ↔
      (∀ mapping ∈ space.mappings, mapping.start ≠ 0) ∧
        ∀ mapping ∈ space.mappings, ∀ x ∈ mapping.leftovers, Harmless x :=
  ⟨fun hagree => ⟨hagree.start_ne_zero, hagree.harmless⟩,
    fun hcondition => queriesAgree_of_harmless hcondition.1 hcondition.2⟩

end

/-- A mapping of a file with a long name that ends in `1-2 r`. -/
def longName : Mapping where
  start := 0x400000
  stop := 0x401000
  permissions :=
    { read := true, write := false, exec := true, shared := false }
  rest := "00000000 08:01 5 ".toList ++ List.replicate 33 ' ' ++
    '/' :: List.replicate 223 'a' ++ "1-2 r".toList
  info := []
  start_lt_stop := by decide
  oneLine := by decide

def longNameSpace : AddressSpace where
  mappings := [longName]
  ascending := pairwise_singleton _ _

theorem long_name_is_listed_twice :
    virtualQueryExFull (longNameSpace.files fun _ => 0) noFlags =
        some [longName.region,
          { baseaddress := 1, size := 1, protection := pageReadonly,
            type := memPrivate }] ∧
      ¬ QueriesAgree longNameSpace (fun _ => 0) [] := by
  have hlisted : virtualQueryExFull (longNameSpace.files fun _ => 0) noFlags =
      some [longName.region,
        { baseaddress := 1, size := 1, protection := pageReadonly,
          type := memPrivate }] := by
    decide +kernel
  refine ⟨hlisted, fun hagree => ?_⟩
  have hfull := hagree.full
  rw [hlisted] at hfull
  exact absurd hfull (by decide)

end CheatEngine.CeserverRegions
