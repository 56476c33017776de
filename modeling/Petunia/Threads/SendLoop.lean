import Petunia.Lib.Run
import Mathlib.Logic.Function.Basic

set_option autoImplicit false

/-!
# The send thread, its callers and its termination

`SendThreadLoop` waits on `m_send_condition_variable` with `m_send_lock`; any number of threads call
`SendMessage`; `TerminateMQThread` clears `m_running` without taking the lock, notifies and joins.
The receive thread appears as one of the callers, by its listeners, and by its end, which
`TerminateMQThread` joins first.

* `SenderPc`, `CallerPc`, `TerminatorPc`: the program counters, named after the next step;
* `SendLoop`, `SendLoop.step`: atomic steps under any interleaving; a medium's `SendMessages` leaves
  an arbitrary outbox;
* `SendLoop.Asleep`: the terminator joins a send thread that is blocked with no notification on its
  way.
-/

namespace Petunia.Threads

variable {μ : Type*}

/-- A thread that can hold `m_send_lock`. -/
inductive Owner
  | sender
  | caller (n : ℕ)
  deriving DecidableEq

/-- The next step of `SendThreadLoop`. -/
inductive SenderPc
  | testRunning
  | acquire
  | evalPredicate
  /-- The predicate was false: release the lock and block, in one step. -/
  | block
  /-- Blocked in the wait, and not notified. -/
  | blocked
  /-- Notified: reacquire the lock. -/
  | wake
  | testSend
  | sendMessages
  | release
  | exited
  deriving DecidableEq

/-- The next step of a thread that calls `SendMessage`. -/
inductive CallerPc (μ : Type*)
  | idle
  | push (message : μ)
  | notify
  | release

/-- The next step of the thread that calls `TerminateMQThread`. -/
inductive TerminatorPc
  | clearRunning
  | notify
  | joinReceive
  | joinSend
  | done
  deriving DecidableEq

/-- The shared state and the program counters. -/
structure SendLoop (μ : Type*) where
  running : Bool
  lock : Option Owner
  outbox : List μ
  sender : SenderPc
  callers : ℕ → CallerPc μ
  terminator : TerminatorPc
  /-- The receive thread has left its loop. -/
  receiveExited : Bool

/-- The steps. -/
inductive SendLoopAct (μ : Type*)
  /-- The send thread; `outbox` is what a medium's `SendMessages` leaves. -/
  | sender (outbox : List μ)
  /-- A caller that is idle calls `SendMessage`. -/
  | sendMessage (n : ℕ) (message : μ)
  | caller (n : ℕ)
  | terminator
  | receiveExit

namespace SendLoop

/-- After `StartMQThread`. -/
def init : SendLoop μ := ⟨true, none, [], .testRunning, fun _ => .idle, .clearRunning, false⟩

/-- `notify_all`: a blocked send thread will reacquire the lock. -/
def notifyAll (s : SendLoop μ) : SendLoop μ :=
  { s with sender := if s.sender = .blocked then .wake else s.sender }

/-- One step of `SendThreadLoop`. -/
def senderStep (s : SendLoop μ) (outbox : List μ) : Option (SendLoop μ) :=
  match s.sender with
  | .testRunning => some { s with sender := if s.running then .acquire else .exited }
  | .acquire | .wake =>
    if s.lock = none then some { s with lock := some .sender, sender := .evalPredicate } else none
  | .evalPredicate => some { s with
      sender := if s.outbox ≠ [] ∨ s.running = false then .testSend else .block }
  | .block => some { s with lock := none, sender := .blocked }
  | .testSend => some { s with sender := if s.running then .sendMessages else .release }
  | .sendMessages => some { s with outbox, sender := .release }
  | .release => some { s with lock := none, sender := .testRunning }
  | .blocked | .exited => none

/-- One step of a caller. -/
def callerStep (s : SendLoop μ) (n : ℕ) : Option (SendLoop μ) :=
  match s.callers n with
  | .push m => some { s with
      outbox := s.outbox ++ [m]
      callers := Function.update s.callers n .notify }
  | .notify => some { s.notifyAll with callers := Function.update s.callers n .release }
  | .release => some { s with lock := none, callers := Function.update s.callers n .idle }
  | .idle => none

/-- One step of `TerminateMQThread`. -/
def terminatorStep (s : SendLoop μ) : Option (SendLoop μ) :=
  match s.terminator with
  | .clearRunning => some { s with running := false, terminator := .notify }
  | .notify => some { s.notifyAll with terminator := .joinReceive }
  | .joinReceive => if s.receiveExited then some { s with terminator := .joinSend } else none
  | .joinSend => if s.sender = .exited then some { s with terminator := .done } else none
  | .done => none

/-- One step of a thread. -/
def step (s : SendLoop μ) : SendLoopAct μ → Option (SendLoop μ)
  | .sender outbox => s.senderStep outbox
  | .sendMessage n m =>
    match s.callers n with
    | .idle =>
      if s.lock = none then some { s with
        lock := some (.caller n)
        callers := Function.update s.callers n (.push m) }
      else none
    | _ => none
  | .caller n => s.callerStep n
  | .terminator => s.terminatorStep
  | .receiveExit => if s.running then none else some { s with receiveExited := true }

/-- `TerminateMQThread` waits for a send thread that is blocked, and no notification is pending. -/
def Asleep (s : SendLoop μ) : Prop := s.terminator = .joinSend ∧ s.sender = .blocked

end SendLoop

end Petunia.Threads
