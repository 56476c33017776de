import Petunia.Threads.SendLoop

set_option autoImplicit false

/-!
# Shutdown and the send thread

`TerminateMQThread` changes what the predicate reads without holding `m_send_lock`. The send thread
can therefore have found the predicate false and not be blocked yet when `notify_all` is called, and
then nobody wakes it.

* `SendLoopAct.ReachesWaiter`: the condition that `notify_all` does not fall into that gap;
* `SendLoop.Inv`, **`inv_step`**: after such a `notify_all` the send thread neither blocks nor is
  about to;
* **`never_asleep`**: such runs never leave the send thread asleep; `exists_asleep`: a `notify_all`
  in the gap does; `asleep_after_notify` is such a run.
-/

namespace Petunia.Threads

open Lts

variable {μ : Type*}

/-- `TerminateMQThread` does not call `notify_all` while the send thread has found the predicate
false and is not blocked yet. -/
def SendLoopAct.ReachesWaiter (s : SendLoop μ) : SendLoopAct μ → Prop
  | .terminator => s.terminator = .notify → s.sender ≠ .block
  | _ => True

instance (s : SendLoop μ) : ∀ a : SendLoopAct μ, Decidable (a.ReachesWaiter s)
  | .terminator => inferInstanceAs (Decidable (_ → _))
  | .sender _ | .sendMessage _ _ | .caller _ | .receiveExit => isTrue trivial

/-- `notify_all` has been called. -/
def TerminatorPc.notified : TerminatorPc → Bool
  | .joinReceive | .joinSend | .done => true
  | .clearRunning | .notify => false

namespace SendLoop

/-- Once `m_running` is cleared and the waiters are notified, the send thread does not block. -/
structure Inv (s : SendLoop μ) : Prop where
  stopped : s.terminator ≠ .clearRunning → s.running = false
  awake : s.terminator.notified = true → s.sender ≠ .block ∧ s.sender ≠ .blocked

theorem inv_init : Inv (init : SendLoop μ) :=
  ⟨fun h => absurd rfl h, fun h => Bool.noConfusion h⟩

theorem stopped_of_notified {s : SendLoop μ} (hs : s.Inv) (h : s.terminator.notified = true) :
    s.running = false := by
  refine hs.stopped fun hp => ?_
  rw [hp] at h
  exact Bool.noConfusion h

/-- The send thread: with `m_running` cleared the predicate is true. -/
theorem inv_sender {s s' : SendLoop μ} {outbox : List μ} (hs : s.Inv)
    (h : s.senderStep outbox = some s') : s'.Inv := by
  have hrun := stopped_of_notified hs
  have hawake := hs.awake
  unfold senderStep at h
  split at h
  · cases h
    refine ⟨hs.stopped, fun hn => ?_⟩
    simp only
    split_ifs <;> simp
  · split_ifs at h
    cases h
    exact ⟨hs.stopped, fun hn => by simp⟩
  · split_ifs at h
    cases h
    exact ⟨hs.stopped, fun hn => by simp⟩
  · cases h
    refine ⟨hs.stopped, fun hn => ?_⟩
    simp [hrun hn]
  · next hp =>
    cases h
    exact ⟨hs.stopped, fun hn => absurd hp (hawake hn).1⟩
  · cases h
    refine ⟨hs.stopped, fun hn => ?_⟩
    simp only
    split_ifs <;> simp
  · cases h
    exact ⟨hs.stopped, fun hn => by simp⟩
  · cases h
    exact ⟨hs.stopped, fun hn => by simp⟩
  · cases h
  · cases h

/-- A notification keeps the send thread from being blocked. -/
theorem sender_notifyAll (s : SendLoop μ) :
    s.notifyAll.sender ≠ .blocked ∧ (s.sender ≠ .block → s.notifyAll.sender ≠ .block) := by
  unfold notifyAll
  by_cases hb : s.sender = .blocked
  · simp [hb]
  · simp [hb]

/-- Callers only push and notify. -/
theorem inv_caller {s s' : SendLoop μ} {n : ℕ} (hs : s.Inv) (h : s.callerStep n = some s') :
    s'.Inv := by
  unfold callerStep at h
  split at h
  · cases h
    exact ⟨hs.stopped, hs.awake⟩
  · cases h
    have hn := sender_notifyAll s
    exact ⟨hs.stopped, fun hp => ⟨hn.2 (hs.awake hp).1, hn.1⟩⟩
  · cases h
    exact ⟨hs.stopped, hs.awake⟩
  · cases h

/-- The terminator: its `notify_all` reaches a blocked send thread. -/
theorem inv_terminator {s s' : SendLoop μ} (hs : s.Inv)
    (hC : s.terminator = .notify → s.sender ≠ .block) (h : s.terminatorStep = some s') :
    s'.Inv := by
  unfold terminatorStep at h
  split at h
  · cases h
    exact ⟨fun _ => rfl, fun hp => Bool.noConfusion hp⟩
  · next hp =>
    cases h
    have hn := sender_notifyAll s
    exact ⟨fun _ => hs.stopped (by rw [hp]; simp), fun _ => ⟨hn.2 (hC hp), hn.1⟩⟩
  · next hp =>
    split_ifs at h
    cases h
    exact ⟨fun _ => hs.stopped (by rw [hp]; simp), fun _ => hs.awake (by rw [hp]; rfl)⟩
  · next hp =>
    split_ifs at h
    cases h
    exact ⟨fun _ => hs.stopped (by rw [hp]; simp), fun _ => hs.awake (by rw [hp]; rfl)⟩
  · cases h

/-- **One step keeps the send thread awake after the notification.** -/
theorem inv_step {s s' : SendLoop μ} {a : SendLoopAct μ} (hs : s.Inv) (hC : a.ReachesWaiter s)
    (h : s.step a = some s') : s'.Inv := by
  cases a with
  | sender outbox => exact inv_sender hs h
  | sendMessage n m =>
    simp only [step] at h
    split at h
    · split_ifs at h
      cases h
      exact ⟨hs.stopped, hs.awake⟩
    · cases h
  | caller n => exact inv_caller hs h
  | terminator => exact inv_terminator hs hC h
  | receiveExit =>
    simp only [step] at h
    split_ifs at h
    cases h
    exact ⟨hs.stopped, hs.awake⟩

/-- **Shutdown does not leave the send thread asleep**, in every run in which `notify_all` does not
fall between the evaluation of the predicate and the block. -/
theorem never_asleep {s : SendLoop μ} {as : List (SendLoopAct μ)}
    (h : exec step init as = some s) (ha : Along step (fun s a => a.ReachesWaiter s) init as) :
    ¬ s.Asleep := by
  have hs : s.Inv := exec_invariant_along (fun _ _ _ => inv_step) h ha inv_init
  rintro ⟨hp, hb⟩
  exact (hs.awake (by rw [hp]; rfl)).2 hb

/-- The send thread waits, is notified and ends. -/
theorem never_asleep_notified :
    ∃ s : SendLoop ℕ, exec step init [.sender [], .sender [], .sender [], .sender [], .terminator,
        .terminator, .receiveExit, .terminator, .sender [], .sender []] = some s ∧ ¬ s.Asleep :=
  ⟨_, rfl, never_asleep (show exec step init [.sender [], .sender [], .sender [], .sender [],
    .terminator, .terminator, .receiveExit, .terminator, .sender [], .sender []] = some _ from rfl)
    (by decide)⟩

/-- A `notify_all` in the gap leaves the send thread asleep, if no caller notifies it later. -/
theorem exists_asleep {s : SendLoop μ} (hr : s.running = false) (hp : s.terminator = .notify)
    (hb : s.sender = .block) : ∃ t, Reaches step s t ∧ t.Asleep := by
  let t : SendLoop μ := { s with
    lock := none
    sender := .blocked
    terminator := .joinSend
    receiveExited := true }
  have ht : exec step s [.terminator, .sender [], .receiveExit, .terminator] = some t := by
    simp [exec_cons, step, terminatorStep, notifyAll, senderStep, hr, hp, hb, t]
  exact ⟨t, ⟨_, ht⟩, rfl, rfl⟩

/-- **Asleep after the notification.** -/
theorem asleep_after_notify :
    ∃ s : SendLoop ℕ, exec step init [.sender [], .sender [], .sender [], .terminator, .terminator,
        .sender [], .receiveExit, .terminator] = some s ∧ s.Asleep :=
  ⟨_, rfl, rfl, rfl⟩

end SendLoop

end Petunia.Threads
