import Mathlib.Data.Int.Notation
import Mathlib.Data.List.Basic
import Mathlib.Tactic.Common

/-!
# Loops over partial transfers

A call on a socket moves some of the bytes that it was asked to move, and a
loop around it repeats the call until all bytes are moved.
-/

namespace CheatEngine.PartialTransfer

open List

/-- What a call comes back with: the number of bytes, the end of the
connection, or an error, which may be an interruption. -/
inductive SocketResult
  | count (bytes : ℕ)
  | closed
  | failed (interrupted : Bool)
deriving DecidableEq, Repr

/-- The result of a call, depending on how many bytes it can move. -/
structure Answer where
  result : ℕ → SocketResult
  positive : ∀ limit bytes, result limit = .count bytes → 0 < bytes
  le_limit : ∀ limit bytes, result limit = .count bytes → bytes ≤ limit

/-- A loop returns how much it has moved, or what the call came back with. -/
inductive Outcome
  | waiting
  | returned (value : ℕ)
  | error (value : ℤ)
deriving DecidableEq, Repr

def Outcome.isError : Outcome → Bool
  | .error _ => true
  | _ => false

/-- A call is asked for `length` bytes at `offset`. -/
structure Request where
  offset : ℕ
  length : ℕ
deriving DecidableEq, Repr

/-- What a loop has done: the calls with their results, and the bytes that
were moved. -/
structure Transfer (α : Type*) where
  outcome : Outcome
  requests : List Request
  results : List SocketResult
  bytes : List α

section

variable {α : Type*} (request limit : ℕ → ℕ) (chunk : ℕ → ℕ → List α)
  (retries : Bool) (size : ℕ)

/-- The loop has moved `done` bytes.  It asks for `request done` bytes, of
which the call can move `limit done`. -/
def transferLoop : List Answer → ℕ → Transfer α
  | [], done =>
    if done < size then
      ⟨.waiting, [⟨done, request done⟩], [], []⟩
    else
      ⟨.returned done, [], [], []⟩
  | answer :: rest, done =>
    if done < size then
      match answer.result (limit done) with
      | .count bytes =>
        let later := transferLoop rest (done + bytes)
        ⟨later.outcome, ⟨done, request done⟩ :: later.requests,
          .count bytes :: later.results, chunk done bytes ++ later.bytes⟩
      | .closed => ⟨.error 0, [⟨done, request done⟩], [.closed], []⟩
      | .failed interrupted =>
        if retries && interrupted then
          let later := transferLoop rest done
          ⟨later.outcome, ⟨done, request done⟩ :: later.requests,
            .failed interrupted :: later.results, later.bytes⟩
        else
          ⟨.error (-1), [⟨done, request done⟩], [.failed interrupted], []⟩
    else
      ⟨.returned done, [], [], []⟩

def SocketResult.isFailure : SocketResult → Bool
  | .count _ => false
  | .closed => true
  | .failed interrupted => !(retries && interrupted)

def SocketResult.isCount : SocketResult → Bool
  | .count _ => true
  | _ => false

/-- The bytes of `content` are moved in order from `start` on, inside the
buffer of `size` bytes, and an error is reported just for a failure.  The loop
only waits for a call that has not come back. -/
structure Moves (content : List α) (answers : List Answer) (start : ℕ)
    (transfer : Transfer α) : Prop where
  inside : ∀ call ∈ transfer.requests, call.offset + call.length ≤ size
  inOrder : transfer.bytes <+: content.drop start
  complete : ∀ value, transfer.outcome = .returned value →
    value = size ∧ transfer.bytes.length = size - start
  reports : transfer.outcome.isError = true ↔
    ∃ result ∈ transfer.results, result.isFailure retries = true
  ends : transfer.outcome = .waiting →
    transfer.results.length = answers.length ∧
      (transfer.results.filter SocketResult.isCount).length < size - start

/-- What the loop needs: it never asks for more than what is left of the
buffer, and what a call moves is what comes next. -/
structure Shrinks (content : List α) : Prop where
  request_le : ∀ done ≤ size, done + request done ≤ size
  limit_le : ∀ done, limit done ≤ request done
  chunk_eq : ∀ done bytes, bytes ≤ limit done →
    chunk done bytes = (content.drop done).take bytes
  inside : ∀ done < size, done ≤ content.length →
    done + limit done ≤ content.length

variable {request limit chunk retries size} {content : List α}

variable (answers : List Answer)

theorem moves_finished :
    Moves retries size content answers size ⟨.returned size, [], [], []⟩ where
  inside _ hcall := absurd hcall not_mem_nil
  inOrder := nil_prefix
  complete value houtcome := by
    cases houtcome
    exact ⟨rfl, (Nat.sub_self size).symm⟩
  reports := ⟨(nomatch ·), fun ⟨_, hresult, _⟩ =>
    absurd hresult not_mem_nil⟩
  ends hwaiting := nomatch hwaiting

theorem Moves.reports_cons {later : Transfer α} {rest : List Answer}
    {next : ℕ} (hlater : Moves retries size content rest next later)
    {result : SocketResult} (hgoes : result.isFailure retries = false) :
    later.outcome.isError = true ↔ ∃ other ∈ result :: later.results,
      other.isFailure retries = true := by
  rw [hlater.reports]
  simp [hgoes]

section

variable {start : ℕ} {call : Request}
  (hinside : call.offset + call.length ≤ size)
include hinside

theorem moves_waiting (hstart : start < size) :
    Moves retries size content [] start ⟨.waiting, [call], [], []⟩ where
  inside := forall_mem_singleton.mpr hinside
  inOrder := nil_prefix
  complete _ houtcome := nomatch houtcome
  reports := ⟨(nomatch ·), fun ⟨_, hresult, _⟩ =>
    absurd hresult not_mem_nil⟩
  ends _ := ⟨rfl, Nat.sub_pos_of_lt hstart⟩

theorem moves_failure {result : SocketResult}
    (hfailure : result.isFailure retries = true) (value : ℤ)
    (answers : List Answer) :
    Moves retries size content answers start
      ⟨.error value, [call], [result], []⟩ where
  inside := forall_mem_singleton.mpr hinside
  inOrder := nil_prefix
  complete _ houtcome := nomatch houtcome
  reports := ⟨fun _ => ⟨result, mem_singleton_self _, hfailure⟩,
    fun _ => rfl⟩
  ends hwaiting := nomatch hwaiting

variable {later : Transfer α} {rest : List Answer}

theorem Moves.interrupted
    (hlater : Moves retries size content rest start later)
    (hretries : SocketResult.isFailure retries (.failed true) = false)
    (answer : Answer) :
    Moves retries size content (answer :: rest) start
      ⟨later.outcome, call :: later.requests,
        .failed true :: later.results, later.bytes⟩ where
  inside := forall_mem_cons.mpr ⟨hinside, hlater.inside⟩
  inOrder := hlater.inOrder
  complete := hlater.complete
  reports := hlater.reports_cons hretries
  ends hwaiting := by
    obtain ⟨hlength, hcount⟩ := hlater.ends hwaiting
    exact ⟨congrArg Nat.succ hlength, hcount⟩

theorem Moves.counted {bytes : ℕ} (hpositive : 0 < bytes)
    (hbytes : start + bytes ≤ size)
    (hcontent : start + bytes ≤ content.length)
    (hlater : Moves retries size content rest (start + bytes) later)
    (answer : Answer) :
    Moves retries size content (answer :: rest) start
      ⟨later.outcome, call :: later.requests, .count bytes :: later.results,
        (content.drop start).take bytes ++ later.bytes⟩ where
  inside := forall_mem_cons.mpr ⟨hinside, hlater.inside⟩
  inOrder := by
    have hsplit := take_append_drop bytes (content.drop start)
    rw [drop_drop] at hsplit
    conv_rhs => rw [← hsplit]
    exact (prefix_append_right_inj _).mpr hlater.inOrder
  complete value houtcome := by
    obtain ⟨hvalue, hmoved⟩ := hlater.complete value houtcome
    refine ⟨hvalue, ?_⟩
    rw [length_append, hmoved, length_take, length_drop]
    omega
  reports := hlater.reports_cons rfl
  ends hwaiting := by
    obtain ⟨hlength, hcount⟩ := hlater.ends hwaiting
    refine ⟨congrArg Nat.succ hlength, ?_⟩
    rw [filter_cons_of_pos rfl, length_cons]
    omega

end

theorem transferLoop_done {done : ℕ} (hdone : ¬ done < size) :
    transferLoop request limit chunk retries size answers done =
      ⟨.returned done, [], [], []⟩ := by
  cases answers <;> rw [transferLoop, if_neg hdone]

theorem request_mem_transferLoop {done : ℕ} (hdone : done < size) :
    ⟨done, request done⟩ ∈ (transferLoop request limit chunk retries size
      answers done).requests := by
  cases answers with
  | nil =>
    rw [transferLoop, if_pos hdone]
    exact mem_singleton_self _
  | cons answer rest =>
    rw [transferLoop, if_pos hdone]
    cases answer.result (limit done) with
    | count bytes => exact mem_cons_self
    | closed => exact mem_singleton_self _
    | failed interrupted =>
      dsimp only
      split
      · exact mem_cons_self
      · exact mem_singleton_self _

theorem moves_transferLoop
    (hshrinks : Shrinks request limit chunk size content)
    (answers : List Answer) {start : ℕ} (hstart : start ≤ size)
    (hbefore : start ≤ content.length) :
    Moves retries size content answers start
      (transferLoop request limit chunk retries size answers start) := by
  have hinside := hshrinks.request_le start hstart
  induction answers generalizing start with
  | nil =>
    rw [transferLoop]
    split
    · next hless => exact moves_waiting hinside hless
    · next hdone =>
        obtain rfl : start = size := by omega
        exact moves_finished []
  | cons answer rest ih =>
    rw [transferLoop]
    split
    · next hless =>
        cases hresult : answer.result (limit start) with
        | count bytes =>
          have hle := answer.le_limit _ _ hresult
          have hlimit := hshrinks.limit_le start
          have hcontent := hshrinks.inside start hless hbefore
          have hnext : start + bytes ≤ size := by omega
          dsimp only
          rw [hshrinks.chunk_eq start bytes hle]
          exact Moves.counted hinside (answer.positive _ _ hresult) hnext
            (by omega) (ih hnext (by omega) (hshrinks.request_le _ hnext))
            answer
        | closed => exact moves_failure hinside rfl 0 _
        | failed interrupted =>
          dsimp only
          cases hretries : retries && interrupted with
          | true =>
            obtain ⟨rfl, rfl⟩ := Bool.and_eq_true_iff.mp hretries
            exact Moves.interrupted hinside
              (ih hstart hbefore hinside) rfl answer
          | false =>
            refine moves_failure hinside ?_ (-1) _
            rw [SocketResult.isFailure, hretries]
            rfl
    · next hdone =>
        obtain rfl : start = size := by omega
        exact moves_finished _

end

end CheatEngine.PartialTransfer
