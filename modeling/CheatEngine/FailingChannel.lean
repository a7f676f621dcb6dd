import Mathlib.Tactic

/-!
# First-in first-out channels that can fail

One direction of a connection.  Messages arrive in the order in which they
were written.  When the direction fails, a prefix of what was in flight may
still arrive and everything written later is gone without the writer being
told.
-/

namespace CheatEngine

structure FailingChannel (Message : Type*) where
  inFlight : List Message
  failed : Bool

namespace FailingChannel

variable {Message : Type*}

def opened : FailingChannel Message where
  inFlight := []
  failed := false

def write (channel : FailingChannel Message) (message : Message) :
    FailingChannel Message :=
  if channel.failed then
    channel
  else
    { channel with inFlight := channel.inFlight ++ [message] }

def taken (channel : FailingChannel Message) : FailingChannel Message :=
  { channel with inFlight := channel.inFlight.tail }

/-- The direction fails; the first `kept` messages still arrive. -/
def fail (channel : FailingChannel Message) (kept : ℕ) :
    FailingChannel Message where
  inFlight := channel.inFlight.take kept
  failed := true

def shut (channel : FailingChannel Message) : FailingChannel Message :=
  { channel with failed := true }

def closed : FailingChannel Message where
  inFlight := []
  failed := true

@[simp] theorem opened_inFlight :
    (opened : FailingChannel Message).inFlight = [] := rfl

variable (channel : FailingChannel Message)

@[simp] theorem taken_inFlight :
    channel.taken.inFlight = channel.inFlight.tail := rfl

@[simp] theorem fail_inFlight (kept : ℕ) :
    (channel.fail kept).inFlight = channel.inFlight.take kept := rfl

@[simp] theorem shut_inFlight : channel.shut.inFlight = channel.inFlight := rfl

@[simp] theorem closed_inFlight :
    (closed : FailingChannel Message).inFlight = [] := rfl

@[simp] theorem taken_failed : channel.taken.failed = channel.failed := rfl

@[simp] theorem fail_failed (kept : ℕ) :
    (channel.fail kept).failed = true := rfl

@[simp] theorem shut_failed : channel.shut.failed = true := rfl

@[simp] theorem closed_failed :
    (closed : FailingChannel Message).failed = true := rfl

@[simp] theorem write_failed (message : Message) :
    (channel.write message).failed = channel.failed := by
  unfold write
  split <;> rfl

theorem write_inFlight_of_open {channel : FailingChannel Message}
    (hopen : channel.failed = false) (message : Message) :
    (channel.write message).inFlight = channel.inFlight ++ [message] := by
  simp [write, hopen]

theorem write_inFlight_of_failed {channel : FailingChannel Message}
    (hfailed : channel.failed = true) (message : Message) :
    (channel.write message).inFlight = channel.inFlight := by
  simp [write, hfailed]

theorem write_inFlight_cases (message : Message) :
    (channel.write message).inFlight = channel.inFlight ++ [message] ∨
      (channel.write message).inFlight = channel.inFlight := by
  cases hfailed : channel.failed with
  | false => exact Or.inl (write_inFlight_of_open hfailed message)
  | true => exact Or.inr (write_inFlight_of_failed hfailed message)

theorem mem_write {channel : FailingChannel Message}
    {message other : Message}
    (hmem : other ∈ (channel.write message).inFlight) :
    other ∈ channel.inFlight ∨ other = message := by
  rcases channel.write_inFlight_cases message with hcase | hcase <;>
    rw [hcase] at hmem
  · simpa using hmem
  · exact Or.inl hmem

@[simp] theorem mem_write_of_ne {channel : FailingChannel Message}
    {message other : Message} (hne : other ≠ message) :
    other ∈ (channel.write message).inFlight ↔ other ∈ channel.inFlight := by
  rcases channel.write_inFlight_cases message with hcase | hcase <;>
    simp [hcase, hne]

theorem sum_write {Weight : Type*} [AddCommMonoid Weight]
    (weight : Message → Weight) {message : Message}
    (hweight : weight message = 0) :
    ((channel.write message).inFlight.map weight).sum =
      (channel.inFlight.map weight).sum := by
  rcases channel.write_inFlight_cases message with hcase | hcase <;>
    simp [hcase, hweight]

end FailingChannel
end CheatEngine
