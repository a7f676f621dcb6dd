import CheatEngine.PartialTransfer
import Mathlib.Tactic

/-!
# Transfers over a connection

`TCEConnection.send` and `TCEConnection.receive` of the client, and `recvall`
and `sendall` of ceserver.  What one side has sent arrives at the other in
order.
-/

namespace CheatEngine.SocketTransfers

open List PartialTransfer

/-- The bytes at an offset from the start of the buffer, which may lie behind
its end. -/
def readMemory (memory : ℕ → UInt8) (offset bytes : ℕ) : List UInt8 :=
  (List.range' offset bytes).map memory

def buffer (memory : ℕ → UInt8) (size : ℕ) : List UInt8 :=
  readMemory memory 0 size

section

variable (memory : ℕ → UInt8) (arrived : List UInt8) (size : ℕ)
  (answers : List Answer)

def send : Transfer UInt8 :=
  transferLoop (fun _ => size) (fun _ => size) (readMemory memory) false size
    answers 0

def sendall : Transfer UInt8 :=
  transferLoop (size - ·) (size - ·) (readMemory memory) true size answers 0

def receive : Transfer UInt8 :=
  transferLoop (size - ·)
    (fun result => min (size - result) (arrived.length - result))
    (fun result bytes => (arrived.drop result).take bytes) false size
    answers 0

def recvall : Transfer UInt8 :=
  transferLoop (size - ·)
    (fun totalreceived =>
      min (size - totalreceived) (arrived.length - totalreceived))
    (fun totalreceived bytes => (arrived.drop totalreceived).take bytes) true
    size answers 0

end

/-- Both sides stay inside their buffers and report just the failures, and
what is sent and received are the bytes of the buffer. -/
structure Delivers (memory : ℕ → UInt8) (size : ℕ)
    (retriesSent retriesReceived : Bool)
    (sendAnswers receiveAnswers : List Answer)
    (sent received : Transfer UInt8) : Prop where
  sends : Moves retriesSent size (buffer memory size) sendAnswers 0 sent
  receives :
    Moves retriesReceived size (buffer memory size) receiveAnswers 0 received
  allSent : ∀ value, sent.outcome = .returned value →
    sent.bytes = buffer memory size
  allReceived : ∀ value, received.outcome = .returned value →
    received.bytes = buffer memory size

structure Answers where
  send : List Answer
  recvall : List Answer
  sendall : List Answer
  receive : List Answer

/-- A buffer goes from the client to the server, and from the server to the
client. -/
def TransfersSurvive (memory : ℕ → UInt8) (size : ℕ) (answers : Answers) :
    Prop :=
  let request := send memory size answers.send
  let reply := sendall memory size answers.sendall
  Delivers memory size false true answers.send answers.recvall request
      (recvall request.bytes size answers.recvall) ∧
    Delivers memory size true false answers.sendall answers.receive reply
      (receive reply.bytes size answers.receive)

def FirstSendWhole (size : ℕ) (answers : List Answer) : Prop :=
  ∀ answer ∈ answers.head?, ∀ bytes,
    answer.result size = .count bytes → bytes = size

/-! ## Loops that shrink their requests -/

theorem readMemory_length (memory : ℕ → UInt8) (offset bytes : ℕ) :
    (readMemory memory offset bytes).length = bytes := by
  rw [readMemory, length_map, length_range']

theorem readMemory_eq (memory : ℕ → UInt8) {size done bytes : ℕ}
    (hbytes : bytes ≤ size - done) :
    readMemory memory done bytes =
      ((buffer memory size).drop done).take bytes := by
  rw [buffer, readMemory, readMemory, ← map_drop, ← map_take, drop_range',
    take_range'_of_length_ge hbytes, Nat.mul_one, Nat.zero_add]

section

variable (memory : ℕ → UInt8) (size : ℕ)

theorem shrinks_sendall :
    Shrinks (size - ·) (size - ·) (readMemory memory) size
      (buffer memory size) where
  request_le done hdone := (Nat.add_sub_of_le hdone).le
  limit_le done := le_rfl
  chunk_eq done bytes hbytes := readMemory_eq memory hbytes
  inside done hdone _ := by
    rw [buffer, readMemory_length, Nat.add_sub_of_le hdone.le]

theorem send_eq {answers : List Answer}
    (hwhole : FirstSendWhole size answers) :
    send memory size answers =
      transferLoop (size - ·) (size - ·) (readMemory memory) false size
        answers 0 := by
  rw [send]
  cases answers with
  | nil =>
    rw [transferLoop, transferLoop, Nat.sub_zero]
  | cons answer rest =>
    rw [transferLoop, transferLoop, Nat.sub_zero]
    cases hresult : answer.result size with
    | count bytes =>
      obtain rfl := hwhole answer rfl bytes hresult
      have hdone : ¬ 0 + bytes < bytes := by omega
      dsimp only
      rw [transferLoop_done rest hdone, transferLoop_done rest hdone]
    | closed => rfl
    | failed interrupted => rfl

end

theorem shrinks_receive (arrived : List UInt8) (size : ℕ) :
    Shrinks (size - ·)
      (fun done => min (size - done) (arrived.length - done))
      (fun done bytes => (arrived.drop done).take bytes) size arrived where
  request_le done hdone := (Nat.add_sub_of_le hdone).le
  limit_le done := min_le_left _ _
  chunk_eq done bytes _ := rfl
  inside done _ hbefore := by
    have hlimit := min_le_right (size - done) (arrived.length - done)
    omega

section

variable {memory : ℕ → UInt8} {size : ℕ}

theorem moves_sendall (answers : List Answer) (retries : Bool) :
    Moves retries size (buffer memory size) answers 0
      (transferLoop (size - ·) (size - ·) (readMemory memory) retries size
        answers 0) :=
  moves_transferLoop (shrinks_sendall memory size) answers (Nat.zero_le _)
    (Nat.zero_le _)

theorem bytes_of_returned {answers : List Answer} {retries : Bool}
    {transfer : Transfer UInt8}
    (hmoves : Moves retries size (buffer memory size) answers 0 transfer)
    (value : ℕ) (hreturned : transfer.outcome = .returned value) :
    transfer.bytes = buffer memory size := by
  have hlength := (hmoves.complete value hreturned).2
  have horder := hmoves.inOrder
  rw [drop_zero] at horder
  refine horder.eq_of_length ?_
  rw [hlength, buffer, readMemory_length, Nat.sub_zero]

theorem Moves.of_arrived {answers : List Answer} {retries : Bool}
    {sent : List UInt8} {transfer : Transfer UInt8}
    (hmoves : Moves retries size sent answers 0 transfer)
    (hsent : sent <+: buffer memory size) :
    Moves retries size (buffer memory size) answers 0 transfer where
  inside := hmoves.inside
  inOrder := by
    have horder := hmoves.inOrder
    rw [drop_zero] at horder ⊢
    exact horder.trans hsent
  complete := hmoves.complete
  reports := hmoves.reports
  ends := hmoves.ends

theorem delivers_of_moves {retriesSent retriesReceived : Bool}
    {sendAnswers receiveAnswers : List Answer}
    {sent received : Transfer UInt8}
    (hsent : Moves retriesSent size (buffer memory size) sendAnswers 0 sent)
    (hreceived :
      Moves retriesReceived size sent.bytes receiveAnswers 0 received) :
    Delivers memory size retriesSent retriesReceived sendAnswers
      receiveAnswers sent received := by
  have horder := hsent.inOrder
  rw [drop_zero] at horder
  have harrived := Moves.of_arrived hreceived horder
  exact ⟨hsent, harrived, bytes_of_returned hsent, bytes_of_returned harrived⟩

theorem not_inside_of_not_whole {answers : List Answer}
    (hnot : ¬ FirstSendWhole size answers) :
    ∃ call ∈ (send memory size answers).requests,
      size < call.offset + call.length := by
  simp only [FirstSendWhole, not_forall] at hnot
  obtain ⟨answer, hfirst, bytes, hresult, hne⟩ := hnot
  obtain ⟨rest, rfl⟩ := head?_eq_some_iff.mp hfirst
  have hpositive := answer.positive _ _ hresult
  have hle := answer.le_limit _ _ hresult
  refine ⟨⟨0 + bytes, size⟩, ?_, by dsimp only; omega⟩
  rw [send, transferLoop, if_pos (by omega), hresult]
  exact mem_cons_of_mem _ (request_mem_transferLoop rest (by omega))

end

/-- Transfers survive just when the first call of `send` moves all bytes or
none. -/
theorem transfersSurvive_iff (memory : ℕ → UInt8) (size : ℕ)
    (answers : Answers) :
    TransfersSurvive memory size answers ↔
      FirstSendWhole size answers.send := by
  constructor
  · intro hsurvive
    by_contra hnot
    obtain ⟨call, hcall, hbehind⟩ :=
      @not_inside_of_not_whole memory size answers.send hnot
    have hinside := hsurvive.1.sends.inside call hcall
    omega
  · intro hwhole
    have hsend : Moves false size (buffer memory size) answers.send 0
        (send memory size answers.send) := by
      rw [send_eq memory size hwhole]
      exact moves_sendall answers.send false
    exact ⟨delivers_of_moves hsend
        (moves_transferLoop (shrinks_receive _ size) _ (Nat.zero_le _)
          (Nat.zero_le _)),
      delivers_of_moves (moves_sendall answers.sendall true)
        (moves_transferLoop (shrinks_receive _ size) _ (Nat.zero_le _)
          (Nat.zero_le _))⟩

def oneByte : Answer where
  result limit := if limit = 0 then .failed false else .count 1
  positive limit bytes hresult := by
    split at hresult
    · cases hresult
    · cases hresult
      exact Nat.one_pos
  le_limit limit bytes hresult := by
    split at hresult
    · cases hresult
    · next hlimit =>
        cases hresult
        exact Nat.one_le_iff_ne_zero.mpr hlimit

/-- Two bytes of which the first call sends one: the second call is asked for
two bytes at the second byte of the buffer. -/
theorem not_transfersSurvive :
    ¬ TransfersSurvive (fun _ => 0) 2
      { send := [oneByte], recvall := [], sendall := [], receive := [] } := by
  intro hsurvive
  have hinside := hsurvive.1.sends.inside ⟨1, 2⟩ (by decide)
  exact absurd hinside (by decide)

end CheatEngine.SocketTransfers
