import Petunia.Threads.SendLoop
import Mathlib.Tactic.Common

set_option autoImplicit false

/-!
# What a step of the send loop does

* `SendLoop.Effect`, **`SendLoop.step_effect`**: one case for each step of a thread;
* `SendLoop.Joined`, `joined_step`: what the thread that joins the others knows.
-/

namespace Petunia.Threads

variable {μ : Type*}

namespace SendLoop

/-- The effects of one step. -/
inductive Effect (s : SendLoop μ) : SendLoopAct μ → SendLoop μ → Prop
  | testRunning (outbox : List μ) (hp : s.sender = .testRunning) :
    Effect s (.sender outbox) { s with sender := if s.running then .acquire else .exited }
  | acquire (outbox : List μ) (hp : s.sender = .acquire ∨ s.sender = .wake) (hl : s.lock = none) :
    Effect s (.sender outbox) { s with lock := some .sender, sender := .evalPredicate }
  | evalPredicate (outbox : List μ) (hp : s.sender = .evalPredicate) :
    Effect s (.sender outbox) { s with
      sender := if s.outbox ≠ [] ∨ s.running = false then .testSend else .block }
  | block (outbox : List μ) (hp : s.sender = .block) :
    Effect s (.sender outbox) { s with lock := none, sender := .blocked }
  | testSend (outbox : List μ) (hp : s.sender = .testSend) :
    Effect s (.sender outbox) { s with sender := if s.running then .sendMessages else .release }
  | sendMessages (outbox : List μ) (hp : s.sender = .sendMessages) :
    Effect s (.sender outbox) { s with outbox, sender := .release }
  | release (outbox : List μ) (hp : s.sender = .release) :
    Effect s (.sender outbox) { s with lock := none, sender := .testRunning }
  | call (n : ℕ) (m : μ) (hc : s.callers n = .idle) (hl : s.lock = none) :
    Effect s (.sendMessage n m) { s with
      lock := some (.caller n)
      callers := Function.update s.callers n (.push m) }
  | push {m : μ} (n : ℕ) (hc : s.callers n = .push m) :
    Effect s (.caller n) { s with
      outbox := s.outbox ++ [m]
      callers := Function.update s.callers n .notify }
  | notify (n : ℕ) (hc : s.callers n = .notify) :
    Effect s (.caller n) { s.notifyAll with callers := Function.update s.callers n .release }
  | leave (n : ℕ) (hc : s.callers n = .release) :
    Effect s (.caller n) { s with lock := none, callers := Function.update s.callers n .idle }
  | clearRunning (ht : s.terminator = .clearRunning) :
    Effect s .terminator { s with running := false, terminator := .notify }
  | notifyAll (ht : s.terminator = .notify) :
    Effect s .terminator { s.notifyAll with terminator := .joinReceive }
  | joinReceive (ht : s.terminator = .joinReceive) (hr : s.receiveExited = true) :
    Effect s .terminator { s with terminator := .joinSend }
  | joinSend (ht : s.terminator = .joinSend) (hs : s.sender = .exited) :
    Effect s .terminator { s with terminator := .done }
  | receiveExit (hr : s.running = false) : Effect s .receiveExit { s with receiveExited := true }

variable {s s' : SendLoop μ} {a : SendLoopAct μ}

theorem effect_sender {outbox : List μ} (h : s.senderStep outbox = some s') :
    Effect s (.sender outbox) s' := by
  cases hp : s.sender <;> simp only [senderStep, hp] at h
  case testRunning =>
    obtain rfl := Option.some.inj h
    exact .testRunning outbox hp
  case acquire =>
    split_ifs at h with hl
    obtain rfl := Option.some.inj h
    exact .acquire outbox (.inl hp) hl
  case evalPredicate =>
    obtain rfl := Option.some.inj h
    exact .evalPredicate outbox hp
  case block =>
    obtain rfl := Option.some.inj h
    exact .block outbox hp
  case blocked => cases h
  case wake =>
    split_ifs at h with hl
    obtain rfl := Option.some.inj h
    exact .acquire outbox (.inr hp) hl
  case testSend =>
    obtain rfl := Option.some.inj h
    exact .testSend outbox hp
  case sendMessages =>
    obtain rfl := Option.some.inj h
    exact .sendMessages outbox hp
  case release =>
    obtain rfl := Option.some.inj h
    exact .release outbox hp
  case exited => cases h

theorem effect_caller {n : ℕ} (h : s.callerStep n = some s') : Effect s (.caller n) s' := by
  cases hc : s.callers n <;> simp only [callerStep, hc] at h
  case idle => cases h
  case push m =>
    obtain rfl := Option.some.inj h
    exact .push n hc
  case notify =>
    obtain rfl := Option.some.inj h
    exact .notify n hc
  case release =>
    obtain rfl := Option.some.inj h
    exact .leave n hc

theorem effect_terminator (h : s.terminatorStep = some s') : Effect s .terminator s' := by
  cases ht : s.terminator <;> simp only [terminatorStep, ht] at h
  case clearRunning =>
    obtain rfl := Option.some.inj h
    exact .clearRunning ht
  case notify =>
    obtain rfl := Option.some.inj h
    exact .notifyAll ht
  case joinReceive =>
    split_ifs at h with hr
    obtain rfl := Option.some.inj h
    exact .joinReceive ht hr
  case joinSend =>
    split_ifs at h with hs
    obtain rfl := Option.some.inj h
    exact .joinSend ht hs
  case done => cases h

/-- **What one step does.** -/
theorem step_effect (h : s.step a = some s') : Effect s a s' := by
  cases a with
  | sender outbox => exact effect_sender h
  | sendMessage n m =>
    simp only [step] at h
    split at h
    · next hc =>
      split_ifs at h with hl
      obtain rfl := Option.some.inj h
      exact .call n m hc hl
    · cases h
  | caller n => exact effect_caller h
  | terminator => exact effect_terminator h
  | receiveExit =>
    simp only [step] at h
    split_ifs at h with hr
    obtain rfl := Option.some.inj h
    exact .receiveExit (Bool.eq_false_iff.mpr hr)

/-! ## The joins -/

@[simp] theorem running_notifyAll (s : SendLoop μ) : s.notifyAll.running = s.running := rfl

@[simp] theorem receiveExited_notifyAll (s : SendLoop μ) :
    s.notifyAll.receiveExited = s.receiveExited := rfl

/-- Only a blocked send thread hears a notification. -/
theorem sender_notifyAll_of_ne (h : s.sender ≠ .blocked) : s.notifyAll.sender = s.sender :=
  if_neg h

/-- What the thread that has joined the others knows. -/
structure Joined (s : SendLoop μ) : Prop where
  receive : s.terminator = .joinSend ∨ s.terminator = .done → s.receiveExited = true
  send : s.terminator = .done → s.sender = .exited

theorem joined_init : Joined (init : SendLoop μ) := ⟨by simp [init], by simp [init]⟩

/-- **A join ends when the thread has ended.** -/
theorem joined_step (hs : s.Joined) (h : s.step a = some s') : s'.Joined := by
  have hdone : s.sender ≠ .exited → s.terminator ≠ .done := fun hp ht => hp (hs.send ht)
  cases step_effect h with
  | testRunning outbox hp | evalPredicate outbox hp | block outbox hp | testSend outbox hp
  | sendMessages outbox hp | release outbox hp =>
    exact ⟨hs.receive, fun ht => absurd ht (hdone (by simp [hp]))⟩
  | acquire outbox hp hl =>
    exact ⟨hs.receive, fun ht => absurd ht (hdone (by rcases hp with hp | hp <;> simp [hp]))⟩
  | call | push | leave => exact ⟨hs.receive, hs.send⟩
  | notify n hc =>
    refine ⟨hs.receive, fun ht => ?_⟩
    have hexit := hs.send ht
    exact (sender_notifyAll_of_ne (by simp [hexit])).trans hexit
  | clearRunning | notifyAll => exact ⟨by simp, by simp⟩
  | joinReceive ht hr => exact ⟨fun _ => hr, by simp⟩
  | joinSend ht hexit => exact ⟨fun _ => hs.receive (.inl ht), fun _ => hexit⟩
  | receiveExit hr => exact ⟨fun _ => rfl, hs.send⟩

/-- Only the receive thread reports its end. -/
theorem receiveExited_eq (h : s.step a = some s') (ha : a ≠ .receiveExit) :
    s'.receiveExited = s.receiveExited := by
  cases step_effect h with
  | receiveExit => exact absurd rfl ha
  | _ => rfl

/-- The terminator has nothing left to do when it has joined both threads. -/
theorem terminator_eq_done (h : s.step a = some s') (ht : s.terminator = .done) :
    s'.terminator = .done := by
  cases step_effect h with
  | clearRunning ht' | notifyAll ht' | joinReceive ht' | joinSend ht' =>
    simp [ht] at ht'
  | _ => exact ht

end SendLoop

end Petunia.Threads
