import Mathlib.Tactic

/-!
# A compressor that works in steps

`deflate` takes bytes from an input, puts bytes into an output that may be too
small, and says whether the stream is at its end.  What its users rely on: a
call takes all of its input or fills its output, and what a finished stream
has put out inflates to what it has taken.
-/

namespace CheatEngine.Deflate

inductive Status
  | ok
  | streamEnd
  | failed
deriving DecidableEq

/-- What one call of `deflate` does. -/
structure Call (Stream : Type) where
  stream : Stream
  consumed : ℕ
  produced : List UInt8
  status : Status

structure Codec where
  Stream : Type
  init : Stream
  deflate : Bool → List UInt8 → ℕ → Stream → Call Stream
  inflate : List UInt8 → Option (List UInt8)
  deflateBound : ℕ → ℕ

/-- The stream has taken the first bytes and put out the second.  While it is
being finished, the input that is left is kept. -/
inductive Reaches (codec : Codec) :
    codec.Stream → List UInt8 → List UInt8 → Option (List UInt8) → Prop
  | init : Reaches codec codec.init [] [] none
  | flush {stream : codec.Stream} {taken given input : List UInt8}
      {availOut : ℕ} (hreaches : Reaches codec stream taken given none)
      (hinput : input ≠ []) (hroom : 0 < availOut) :
      Reaches codec (codec.deflate false input availOut stream).stream
        (taken ++ input.take
          (codec.deflate false input availOut stream).consumed)
        (given ++ (codec.deflate false input availOut stream).produced) none
  | finish {stream : codec.Stream} {taken given input : List UInt8}
      {left : Option (List UInt8)} {availOut : ℕ}
      (hreaches : Reaches codec stream taken given left)
      (hleft : left = none ∨ left = some input) (hroom : 0 < availOut) :
      Reaches codec (codec.deflate true input availOut stream).stream
        (taken ++ input.take
          (codec.deflate true input availOut stream).consumed)
        (given ++ (codec.deflate true input availOut stream).produced)
        (some (input.drop
          (codec.deflate true input availOut stream).consumed))

structure Zlib extends Codec where
  consumed_le : ∀ {stream taken given left input availOut} (finish : Bool),
    Reaches toCodec stream taken given left →
      (deflate finish input availOut stream).consumed ≤ input.length
  produced_le : ∀ {stream taken given left input availOut} (finish : Bool),
    Reaches toCodec stream taken given left →
      (deflate finish input availOut stream).produced.length ≤ availOut
  flush_status : ∀ {stream taken given input availOut},
    Reaches toCodec stream taken given none → input ≠ [] → 0 < availOut →
      (deflate false input availOut stream).status = .ok ∧
        ((deflate false input availOut stream).consumed = input.length ∨
          (deflate false input availOut stream).produced.length = availOut)
  finish_status : ∀ {stream taken given left input availOut},
    Reaches toCodec stream taken given left →
      (left = none ∨ left = some input) → 0 < availOut →
      ((deflate true input availOut stream).status = .streamEnd ∧
          (deflate true input availOut stream).consumed = input.length ∧
          inflate (given ++ (deflate true input availOut stream).produced) =
            some (taken ++ input)) ∨
        ((deflate true input availOut stream).status = .ok ∧
          (deflate true input availOut stream).produced.length = availOut)
  length_le_bound : ∀ {stream taken given left},
    Reaches toCodec stream taken given left →
      given.length ≤ deflateBound taken.length
  bound_mono : Monotone deflateBound

structure BlockStream where
  taken : List UInt8
  pending : Option (List UInt8)

def blockCodec (encode : List UInt8 → List UInt8)
    (decode : List UInt8 → Option (List UInt8)) (bound : ℕ → ℕ) : Codec where
  Stream := BlockStream
  init := { taken := [], pending := none }
  deflate := fun finish input availOut stream =>
    if finish then
      let pending := stream.pending.getD (encode (stream.taken ++ input))
      { stream := { taken := stream.taken ++ input
                    pending := some (pending.drop availOut) }
        consumed := input.length
        produced := pending.take availOut
        status := if pending.length ≤ availOut then .streamEnd else .ok }
    else
      { stream := { stream with taken := stream.taken ++ input }
        consumed := input.length
        produced := []
        status := .ok }
  inflate := decode
  deflateBound := bound

section

variable {encode : List UInt8 → List UInt8}
  {decode : List UInt8 → Option (List UInt8)} {bound : ℕ → ℕ}

theorem blockCodec_reaches {stream : (blockCodec encode decode bound).Stream}
    {taken given : List UInt8} {left : Option (List UInt8)}
    (hreaches : Reaches (blockCodec encode decode bound) stream taken given
      left) :
    BlockStream.taken stream = taken ∧
      ((left = none ∧ BlockStream.pending stream = none ∧ given = []) ∨
        ∃ pending, left = some [] ∧
          BlockStream.pending stream = some pending ∧
          given ++ pending = encode taken) := by
  induction hreaches with
  | init => exact ⟨rfl, Or.inl ⟨rfl, rfl, rfl⟩⟩
  | @flush stream taken given input availOut hreaches hinput hroom ih =>
    obtain ⟨htaken, hmode⟩ := ih
    rcases hmode with ⟨-, hpending, hgiven⟩ | ⟨pending, hleft, -⟩
    · refine ⟨?_, Or.inl ⟨rfl, hpending, ?_⟩⟩
      · simp [blockCodec, htaken]
      · simp [blockCodec, hgiven]
    · cases hleft
  | @finish stream taken given input left availOut hreaches hleft hroom ih =>
    obtain ⟨htaken, hmode⟩ := ih
    refine ⟨by simp [blockCodec, htaken], Or.inr ⟨_, ?_, rfl, ?_⟩⟩
    · simp [blockCodec]
    · rcases hmode with ⟨-, hpending, hgiven⟩ | ⟨pending, hsome, hpending,
        hgiven⟩
      · simp [blockCodec, hpending, hgiven, htaken]
      · subst hsome
        have hinput : input = [] := by
          rcases hleft with hnone | hsame
          · cases hnone
          · exact (Option.some.inj hsame).symm
        simp [blockCodec, hpending, hinput, List.append_assoc, hgiven]

def blockZlib (encode : List UInt8 → List UInt8)
    (decode : List UInt8 → Option (List UInt8)) (bound : ℕ → ℕ)
    (hdecode : ∀ block, decode (encode block) = some block)
    (hbound : ∀ block, (encode block).length ≤ bound block.length)
    (hmono : Monotone bound) : Zlib where
  toCodec := blockCodec encode decode bound
  consumed_le := by
    intro stream taken given left input availOut finish _
    cases finish <;> exact le_rfl
  produced_le := by
    intro stream taken given left input availOut finish _
    cases finish with
    | false => exact Nat.zero_le _
    | true => exact List.length_take_le _ _
  flush_status := fun _ _ _ => ⟨rfl, Or.inl rfl⟩
  finish_status := by
    intro stream taken given left input availOut hreaches hleft _
    obtain ⟨htaken, hmode⟩ := blockCodec_reaches hreaches
    have hcode : given ++ stream.pending.getD (encode (stream.taken ++ input)) =
        encode (taken ++ input) := by
      rcases hmode with ⟨-, hpending, hgiven⟩ | ⟨pending, hsome, hpending,
        hgiven⟩
      · rw [hpending, hgiven, htaken]
        rfl
      · subst hsome
        have hinput : input = [] := by
          rcases hleft with hnone | hsame
          · cases hnone
          · exact (Option.some.inj hsame).symm
        rw [hpending, hinput, List.append_nil, List.append_nil]
        exact hgiven
    dsimp only [blockCodec, if_true]
    generalize stream.pending.getD (encode (stream.taken ++ input)) =
      pending at hcode ⊢
    by_cases hfits : pending.length ≤ availOut
    · refine Or.inl ⟨by simp [hfits], by simp, ?_⟩
      simp only [if_true, List.take_of_length_le hfits, hcode, hdecode]
    · refine Or.inr ⟨by simp [hfits], ?_⟩
      simp only [if_true, List.length_take]
      omega
  length_le_bound := by
    intro stream taken given left hreaches
    obtain ⟨-, hmode⟩ := blockCodec_reaches hreaches
    rcases hmode with ⟨-, -, hgiven⟩ | ⟨pending, -, -, hgiven⟩
    · rw [hgiven]
      exact Nat.zero_le _
    · have hlength := congrArg List.length hgiven
      have hle := hbound taken
      rw [List.length_append] at hlength
      change given.length ≤ bound taken.length
      omega
  bound_mono := hmono

end

end CheatEngine.Deflate
