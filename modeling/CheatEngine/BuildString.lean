import CheatEngine.NumberText

/-!
# Formatted text in the hypervisor

`vbuildstring` writes the pieces of a format one behind the other and shortens
the one that does not fit.
-/

namespace CheatEngine
namespace BuildString

open List NumberText

inductive Conversion
  | decimal
  | hex
  | dword
  | byte
  | qword
  | string
  | char
deriving DecidableEq

def conversion : Char → Option Conversion
  | 'd' => some .decimal
  | 'x' => some .hex
  | '8' => some .dword
  | 'p' => some .dword
  | '6' => some .qword
  | '2' => some .byte
  | 's' => some .string
  | 'c' => some .char
  | _ => none

inductive Argument
  | number (x : UInt32)
  | wide (x : UInt64)
  | string (s : Text)

/-- When a piece is shortened: not at all, from the end of the buffer on or
behind it.  At an unknown conversion the function does not return. -/
inductive Limit
  | never
  | atEnd
  | behind
  | hangs
deriving DecidableEq

structure Piece where
  limit : Limit
  text : Text

def padded (x : UInt32) (wantedsize : ℕ) : Text :=
  appendzero (itoa x 16 [] 100).2 wantedsize 100

def convert : Conversion → Argument → Option (List Piece)
  | .decimal, .number x => some [⟨.atEnd, (itoa x 10 [] 100).2⟩]
  | .hex, .number x => some [⟨.atEnd, (itoa x 16 [] 100).2⟩]
  | .dword, .number x => some [⟨.atEnd, padded x 8⟩]
  | .byte, .number x => some [⟨.atEnd, padded (x % 256) 2⟩]
  | .qword, .wide x =>
    some [⟨.behind, padded (x >>> 32).toUInt32 8⟩,
      ⟨.behind, padded x.toUInt32 8⟩]
  | .string, .string s => some [⟨.behind, s⟩]
  | .char, .number x => some [⟨.never, [Char.ofNat (x % 256).toNat]⟩]
  | _, _ => none

/-- The pieces in order; none for arguments of other kinds and for a `%` at
the end, behind which the copy of the format is left. -/
def pieces : Text → List Argument → Option (List Piece)
  | [], _ => some []
  | ['%'], _ => none
  | '%' :: c :: format, arguments =>
    match conversion c, arguments with
    | none, arguments =>
      (pieces format arguments).map (⟨.hangs, []⟩ :: ·)
    | some kind, argument :: arguments =>
      (convert kind argument).bind fun first =>
        (pieces format arguments).map (first ++ ·)
    | some _, [] => none
  | c :: format, arguments =>
    (pieces format arguments).map (⟨.never, [c]⟩ :: ·)

def conversions : Text → ℕ
  | '%' :: _ :: format => conversions format + 1
  | _ :: format => conversions format
  | [] => 0

def Piece.Over (piece : Piece) (size strpos : ℕ) : Prop :=
  match piece.limit with
  | .never => False
  | .atEnd => size ≤ strpos + piece.text.length
  | .behind => size < strpos + piece.text.length
  | .hangs => True

instance (piece : Piece) (size strpos : ℕ) :
    Decidable (piece.Over size strpos) := by
  unfold Piece.Over
  split <;> infer_instance

/-- No text: bytes outside of `str` or behind the piece are used, or the
function does not return.  A negative count copies nothing. -/
def write (size : ℕ) (piece : Piece) (str : Text) : Option Text :=
  if piece.limit = .hangs then none
  else if piece.Over size str.length then
    let _i : ℤ := size - (str.length + piece.text.length - size)
    if piece.text.length < _i ∨ size < str.length + _i ∨
        str.length + _i < 0 then none
    else if _i < 0 then some (str.take (str.length + _i).toNat)
    else some (str ++ piece.text.take _i.toNat)
  else some (str ++ piece.text)

def writeAll (size : ℕ) : List Piece → Text → Option Text
  | [], str => some str
  | piece :: rest, str =>
    if str.length < size then
      (write size piece str).bind (writeAll size rest)
    else some str

/-- The text before the zero; `varlist` has room for 64 conversions. -/
def vbuildstring (size : ℕ) (format : Text) (arguments : List Argument) :
    Option Text :=
  if 64 < conversions format then none
  else
    (pieces format arguments).bind fun pieces =>
      (writeAll size pieces []).map fun str => str.take (size - 1)

/-! ## What fits -/

def expanded (pieces : List Piece) : Text :=
  (pieces.map Piece.text).flatten

/-- Every piece that starts in the buffer is known, and it ends there or is as
long as the buffer. -/
def Fits (size : ℕ) : List Piece → ℕ → Prop
  | [], _ => True
  | piece :: rest, strpos =>
    size ≤ strpos ∨
      (piece.limit ≠ .hangs ∧
        (piece.Over size strpos → piece.text.length = size)) ∧
      Fits size rest (strpos + piece.text.length)

variable {size : ℕ}

theorem write_fits {piece : Piece} {str : Text} (hlt : str.length < size)
    (hknown : piece.limit ≠ .hangs)
    (hover : piece.Over size str.length → piece.text.length = size) :
    ∃ out, write size piece str = some out ∧
      (out = str ++ piece.text ∨ out.length = size ∧
        ∃ rest, str ++ piece.text = out ++ rest) := by
  rw [write, if_neg hknown]
  split_ifs with h
  · have hlength := hover h
    have hcount : (size : ℤ) - (str.length + piece.text.length - size) =
        (size - str.length : ℕ) := by omega
    simp only [hcount]
    rw [if_neg (by omega), if_neg (by omega), Int.toNat_natCast]
    refine ⟨_, rfl, Or.inr ⟨?_, piece.text.drop (size - str.length), ?_⟩⟩
    · simp only [length_append, length_take]
      omega
    · rw [append_assoc, take_append_drop]
  · exact ⟨_, rfl, Or.inl rfl⟩

theorem writeAll_fits {size : ℕ} {list : List Piece} {str : Text}
    (hfits : Fits size list str.length) :
    ∃ out, writeAll size list str = some out ∧
      out.take (size - 1) = (str ++ expanded list).take (size - 1) := by
  have hfull : ∀ {str rest : Text}, size ≤ str.length →
      str.take (size - 1) = (str ++ rest).take (size - 1) := by
    intro str rest hle
    rw [take_append_of_le_length (by omega)]
  induction list generalizing str with
  | nil => exact ⟨str, rfl, by simp [expanded]⟩
  | cons piece rest ih =>
    rw [writeAll]
    split_ifs with hlt
    · rcases hfits with hle | ⟨⟨hknown, hover⟩, hrest⟩
      · omega
      obtain ⟨out, hwrite, rfl | ⟨hlength, behind, hsplit⟩⟩ :=
        write_fits hlt hknown hover
      · rw [← length_append] at hrest
        obtain ⟨final, hfinal, htake⟩ := ih hrest
        refine ⟨final, by rw [hwrite, Option.bind_some, hfinal], ?_⟩
        rw [htake, append_assoc]
        rfl
      · refine ⟨out, ?_, ?_⟩
        · rw [hwrite, Option.bind_some]
          cases rest with
          | nil => rfl
          | cons next rest => exact if_neg (by omega)
        · rw [show expanded (piece :: rest) = piece.text ++ expanded rest
            from rfl, ← append_assoc, hsplit, append_assoc]
          exact hfull hlength.ge
    · exact ⟨str, rfl, hfull (not_lt.mp hlt)⟩

theorem write_over {piece : Piece} {str : Text}
    (hover : piece.Over size str.length) (hshort : piece.text.length < size) :
    write size piece str = none := by
  rw [write, if_pos hover]
  split_ifs with hhangs
  · rfl
  · exact if_pos (Or.inr (Or.inl (by omega)))

theorem fits_of_le {strpos : ℕ} (list : List Piece) (hle : size ≤ strpos) :
    Fits size list strpos := by
  cases list with
  | nil => trivial
  | cons piece rest => exact Or.inl hle

theorem fits_of_writeAll {list : List Piece} {str out : Text}
    (hall : ∀ piece ∈ list, piece.text.length ≤ size)
    (hwrite : writeAll size list str = some out) :
    Fits size list str.length := by
  induction list generalizing str with
  | nil => trivial
  | cons piece rest ih =>
    rw [writeAll] at hwrite
    split_ifs at hwrite with hlt
    · obtain ⟨next, hnext, hrest⟩ := Option.bind_eq_some_iff.mp hwrite
      have hknown : piece.limit ≠ .hangs := by
        intro hhangs
        rw [write, if_pos hhangs] at hnext
        cases hnext
      refine Or.inr ⟨⟨hknown, fun hover => ?_⟩, ?_⟩
      · by_contra hne
        have hle := hall piece mem_cons_self
        rw [write_over hover (by omega)] at hnext
        cases hnext
      · by_cases hover : piece.Over size str.length
        · have hlength : size ≤ piece.text.length := by
            by_contra hshort
            rw [write_over hover (not_le.mp hshort)] at hnext
            cases hnext
          exact fits_of_le rest (by omega)
        · rw [write, if_neg hknown, if_neg hover] at hnext
          cases hnext
          rw [← length_append]
          exact ih (fun other hother => hall other
            (mem_cons_of_mem piece hother)) hrest
    · exact Or.inl (not_lt.mp hlt)

/-- The text is the part of the expanded one that fits when the pieces fit;
where none of them is longer than the buffer, only then. -/
theorem vbuildstring_fits {size : ℕ} {format : Text}
    {arguments : List Argument} {list : List Piece}
    (hcount : conversions format ≤ 64)
    (hpieces : pieces format arguments = some list) :
    (Fits size list 0 → vbuildstring size format arguments =
      some ((expanded list).take (size - 1))) ∧
    ((∀ piece ∈ list, piece.text.length ≤ size) →
      vbuildstring size format arguments =
        some ((expanded list).take (size - 1)) → Fits size list 0) := by
  rw [vbuildstring, if_neg (not_lt.mpr hcount), hpieces, Option.bind_some]
  constructor
  · intro hfits
    obtain ⟨out, hwrite, htake⟩ := @writeAll_fits size list [] hfits
    rw [hwrite, Option.map_some, htake]
    rfl
  · intro hall hright
    obtain ⟨out, hwrite, -⟩ := Option.map_eq_some_iff.mp hright
    exact fits_of_writeAll hall hwrite

theorem vbuildstring_fits_decimal :
    vbuildstring 4 "a%d".toList [.number 12] = some "a12".toList :=
  (vbuildstring_fits (by decide) (show pieces "a%d".toList [.number 12] =
    some [⟨.never, "a".toList⟩, ⟨.atEnd, "12".toList⟩] from rfl)).1
    (Or.inr ⟨⟨by decide, fun hover => absurd hover (by decide)⟩,
      Or.inr ⟨⟨by decide, fun hover => absurd hover (by decide)⟩, trivial⟩⟩)

theorem not_vbuildstring_decimal :
    ¬ ∀ (size : ℕ) (format : Text) (arguments : List Argument)
      (list : List Piece), 0 < size → conversions format ≤ 64 →
      pieces format arguments = some list →
      vbuildstring size format arguments =
        some ((expanded list).take (size - 1)) := by
  intro hright
  have hnumber := hright 4 "a%d".toList [.number 123] _ (by decide)
    (by decide) rfl
  exact absurd hnumber (by decide)

end BuildString
end CheatEngine
