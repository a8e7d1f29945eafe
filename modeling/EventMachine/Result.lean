import Mathlib.Tactic.Common

/-!
# Result codes

`enum EM_result` of `event-machine/result.h`. The functions return `uint32_t`, and the storage
callbacks may return any such value, so the results of the model are the codes (`EMResult.code`).
-/

namespace EventMachine

/-- `enum EM_result`. -/
inductive EMResult
  | success
  | errorBadfd
  | errorMaxEventsTooSmall
  | errorValueOutOfBounds
  | errorNull
  | errorEventsNull
  | errorDescriptorNull
  | errorBufferNull
  | errorTimerNull
  | errorCallbackNull
  | errorPipe
  | errorClose
  | errorRead
  | errorWrite
  | errorEventCreateQueue
  | errorEventCtl
  | errorEventWait
  | errorTimerfdCreate
  | errorTimerfdSettime
  | errorFcntl
  | errorStorageDuplicateEntry
  | errorStorageNoSuchEntry
  deriving DecidableEq, Repr

/-- The value of an enumerator. -/
def EMResult.code : EMResult → UInt32
  | success => 0
  | errorBadfd => 2
  | errorMaxEventsTooSmall => 3
  | errorValueOutOfBounds => 4
  | errorNull => 8
  | errorEventsNull => 8 + 1
  | errorDescriptorNull => 8 + 2
  | errorBufferNull => 8 + 3
  | errorTimerNull => 8 + 4
  | errorCallbackNull => 8 + 5
  | errorPipe => 32 + 1
  | errorClose => 32 + 2
  | errorRead => 32 + 3
  | errorWrite => 32 + 4
  | errorEventCreateQueue => 32 + 5
  | errorEventCtl => 32 + 6
  | errorEventWait => 32 + 7
  | errorTimerfdCreate => 32 + 8
  | errorTimerfdSettime => 32 + 9
  | errorFcntl => 32 + 10
  | errorStorageDuplicateEntry => 64
  | errorStorageNoSuchEntry => 64 + 1

/-- `is_em_success`; `is_em_failure` is its negation. -/
def isEmSuccess (r : UInt32) : Bool := r == EMResult.success.code

@[simp] theorem isEmSuccess_iff (r : UInt32) : isEmSuccess r = true ↔ r = EMResult.success.code := by
  simp [isEmSuccess]

theorem EMResult.code_injective : Function.Injective EMResult.code := by
  intro a b h
  revert h
  cases a <;> cases b <;> decide

@[simp] theorem EMResult.code_inj {a b : EMResult} : a.code = b.code ↔ a = b :=
  EMResult.code_injective.eq_iff

end EventMachine
