import Petunia.Threads.SendLoop

set_option autoImplicit false

/-!
# No wake-up is missed

`SendMessage` pushes and notifies under `m_send_lock`, and the send thread evaluates its predicate
and blocks without releasing that lock in between. A message can therefore not slip in between the
evaluation and the block, and one that is pushed later comes with a notification.

* `SenderPc.holdsLock`, `CallerPc.holdsLock`: the program counters inside the lock;
* `SendLoop.Guarded`: the lock is held by the thread whose counter says so;
* `SendLoop.Notified`: behind a predicate found false the outbox is empty, or the call that pushed
  is about to notify;
* **`notified_step`**: one step keeps both;
* **`no_missed_wakeup`**: a blocked send thread for which no notification is on its way has an empty
  outbox.
-/

namespace Petunia.Threads

open Lts

variable {μ : Type*}

/-- The send thread is inside `m_send_lock`. -/
def SenderPc.holdsLock : SenderPc → Bool
  | .evalPredicate | .block | .testSend | .sendMessages | .release => true
  | .testRunning | .acquire | .blocked | .wake | .exited => false

/-- A `SendMessage` call is inside `m_send_lock`. -/
def CallerPc.holdsLock : CallerPc μ → Bool
  | .push _ | .notify | .release => true
  | .idle => false

namespace SendLoop

/-- The lock is held exactly by the thread whose program counter is inside it. -/
structure Guarded (s : SendLoop μ) : Prop where
  sender : s.sender.holdsLock = true ↔ s.lock = some .sender
  caller : ∀ n, (s.callers n).holdsLock = true ↔ s.lock = some (.caller n)

/-- The send thread has found its predicate false and has not been notified since. -/
def Waiting (s : SendLoop μ) : Prop := s.sender = .block ∨ s.sender = .blocked

/-- Some `SendMessage` call is between its push and its `notify_all`. -/
def Notifying (s : SendLoop μ) : Prop := ∃ n, s.callers n = .notify

/-- Nothing is pushed behind the back of a waiting send thread. -/
def Notified (s : SendLoop μ) : Prop := s.Waiting → s.outbox = [] ∨ s.Notifying

theorem guarded_init : Guarded (init : SendLoop μ) :=
  ⟨iff_of_false Bool.noConfusion (fun h => nomatch h),
    fun _ => iff_of_false Bool.noConfusion (fun h => nomatch h)⟩

theorem notified_init : Notified (init : SendLoop μ) := fun h => by
  rcases h with h | h <;> cases h

/-- Inside the send thread's lock no call notifies. -/
theorem Guarded.not_notifying {s : SendLoop μ} (hs : s.Guarded) (h : s.sender.holdsLock = true) :
    ¬ s.Notifying := by
  rintro ⟨n, hn⟩
  have hsender := hs.sender.mp h
  have hcaller := (hs.caller n).mp (by rw [hn]; rfl)
  rw [hsender] at hcaller
  cases hcaller

/-- Inside a caller's lock the send thread is outside. -/
theorem Guarded.sender_outside {s : SendLoop μ} (hs : s.Guarded) {n : ℕ}
    (h : (s.callers n).holdsLock = true) : s.sender.holdsLock = false := by
  rw [Bool.eq_false_iff]
  intro hsender
  have hcaller := (hs.caller n).mp h
  rw [hs.sender.mp hsender] at hcaller
  cases hcaller

/-- Inside a caller's lock the other callers are outside. -/
theorem Guarded.caller_outside {s : SendLoop μ} (hs : s.Guarded) {n k : ℕ}
    (h : (s.callers n).holdsLock = true) (hk : k ≠ n) : (s.callers k).holdsLock = false := by
  rw [Bool.eq_false_iff]
  intro hcaller
  have hn := (hs.caller n).mp h
  rw [(hs.caller k).mp hcaller] at hn
  cases hn
  exact hk rfl

/-! ## What one step does to the lock -/

/-- A step of the send thread that neither takes nor releases the lock. -/
theorem Guarded.of_sender {s s' : SendLoop μ} (hs : s.Guarded) (hl : s'.lock = s.lock)
    (hc : s'.callers = s.callers) (hp : s'.sender.holdsLock = s.sender.holdsLock) : s'.Guarded :=
  ⟨by rw [hl, hp]; exact hs.sender, by rw [hl, hc]; exact hs.caller⟩

/-- The send thread takes the lock. -/
theorem Guarded.acquired {s s' : SendLoop μ} (hs : s.Guarded) (h0 : s.lock = none)
    (hl : s'.lock = some .sender) (hc : s'.callers = s.callers)
    (hp : s'.sender.holdsLock = true) : s'.Guarded := by
  refine ⟨iff_of_true hp hl, fun n => ?_⟩
  rw [hl, hc, hs.caller n, h0]
  simp

/-- The send thread releases the lock. -/
theorem Guarded.released {s s' : SendLoop μ} (hs : s.Guarded) (h0 : s.sender.holdsLock = true)
    (hl : s'.lock = none) (hc : s'.callers = s.callers)
    (hp : s'.sender.holdsLock = false) : s'.Guarded := by
  refine ⟨iff_of_false (by simp [hp]) (by simp [hl]), fun n => ?_⟩
  rw [hl, hc, hs.caller n, hs.sender.mp h0]
  simp

theorem guarded_senderStep {s s' : SendLoop μ} {outbox : List μ} (hs : s.Guarded)
    (h : s.senderStep outbox = some s') : s'.Guarded := by
  cases hp : s.sender <;> simp only [senderStep, hp] at h
  case testRunning =>
    cases h
    refine hs.of_sender rfl rfl ?_
    cases hr : s.running <;> simp [hp, SenderPc.holdsLock]
  case acquire =>
    split_ifs at h with hl
    cases h
    exact hs.acquired hl rfl rfl rfl
  case evalPredicate =>
    cases h
    refine hs.of_sender rfl rfl ?_
    simp only [hp]
    split_ifs <;> rfl
  case block =>
    cases h
    exact hs.released (by rw [hp]; rfl) rfl rfl rfl
  case blocked => cases h
  case wake =>
    split_ifs at h with hl
    cases h
    exact hs.acquired hl rfl rfl rfl
  case testSend =>
    cases h
    refine hs.of_sender rfl rfl ?_
    cases hr : s.running <;> simp [hp, SenderPc.holdsLock]
  case sendMessages =>
    cases h
    exact hs.of_sender rfl rfl (by rw [hp]; rfl)
  case release =>
    cases h
    exact hs.released (by rw [hp]; rfl) rfl rfl rfl
  case exited => cases h

theorem holdsLock_notifyAll (s : SendLoop μ) :
    s.notifyAll.sender.holdsLock = s.sender.holdsLock := by
  unfold notifyAll
  by_cases hb : s.sender = .blocked
  · simp [hb, SenderPc.holdsLock]
  · simp [hb]

/-- A caller inside the lock stays inside. -/
theorem Guarded.of_caller {s s' : SendLoop μ} (hs : s.Guarded) {n : ℕ} {pc : CallerPc μ}
    (h : (s.callers n).holdsLock = true) (hl : s'.lock = s.lock)
    (hc : s'.callers = Function.update s.callers n pc) (hpc : pc.holdsLock = true)
    (hp : s'.sender.holdsLock = s.sender.holdsLock) : s'.Guarded := by
  refine ⟨by rw [hl, hp]; exact hs.sender, fun k => ?_⟩
  rw [hl, hc]
  by_cases hk : k = n
  · subst hk
    rw [Function.update_self]
    exact iff_of_true hpc ((hs.caller k).mp h)
  · rw [Function.update_of_ne hk]
    exact hs.caller k

theorem guarded_callerStep {s s' : SendLoop μ} {n : ℕ} (hs : s.Guarded)
    (h : s.callerStep n = some s') : s'.Guarded := by
  cases hp : s.callers n with
  | idle => simp [callerStep, hp] at h
  | push m =>
    simp only [callerStep, hp] at h
    cases h
    exact hs.of_caller (by rw [hp]; rfl) rfl rfl rfl rfl
  | notify =>
    simp only [callerStep, hp] at h
    cases h
    exact hs.of_caller (by rw [hp]; rfl) rfl rfl rfl (holdsLock_notifyAll s)
  | release =>
    simp only [callerStep, hp] at h
    cases h
    have hn : (s.callers n).holdsLock = true := by rw [hp]; rfl
    refine ⟨iff_of_false ?_ (fun h => nomatch h), fun k => iff_of_false ?_ (fun h => nomatch h)⟩
    · simp only [hs.sender_outside hn]
      exact Bool.noConfusion
    · by_cases hk : k = n
      · subst hk
        simp only [Function.update_self]
        exact Bool.noConfusion
      · simp only [Function.update_of_ne hk, hs.caller_outside hn hk]
        exact Bool.noConfusion

theorem guarded_sendMessage {s s' : SendLoop μ} {n : ℕ} {m : μ} (hs : s.Guarded)
    (h : s.step (.sendMessage n m) = some s') : s'.Guarded := by
  simp only [step] at h
  split at h
  · split_ifs at h with hl
    cases h
    refine ⟨?_, fun k => ?_⟩
    · apply iff_of_false
      · rw [hs.sender, hl]; simp
      · simp
    · by_cases hk : k = n
      · subst hk
        simp [CallerPc.holdsLock]
      · have hk' := hs.caller k
        rw [hl] at hk'
        simp only [Function.update_of_ne hk, Option.some.injEq, Owner.caller.injEq]
        exact iff_of_false (by rw [hk']; simp) (fun h => hk h.symm)
  · cases h

theorem guarded_terminatorStep {s s' : SendLoop μ} (hs : s.Guarded)
    (h : s.terminatorStep = some s') : s'.Guarded := by
  unfold terminatorStep at h
  split at h
  · cases h
    exact hs.of_sender rfl rfl rfl
  · cases h
    exact hs.of_sender rfl rfl (holdsLock_notifyAll s)
  · split_ifs at h
    cases h
    exact hs.of_sender rfl rfl rfl
  · split_ifs at h
    cases h
    exact hs.of_sender rfl rfl rfl
  · cases h

/-- **The lock excludes**: one step leaves it with the thread whose counter is inside. -/
theorem guarded_step {s s' : SendLoop μ} {a : SendLoopAct μ} (hs : s.Guarded)
    (h : s.step a = some s') : s'.Guarded := by
  cases a with
  | sender outbox => exact guarded_senderStep hs h
  | sendMessage n m => exact guarded_sendMessage hs h
  | caller n => exact guarded_callerStep hs h
  | terminator => exact guarded_terminatorStep hs h
  | receiveExit =>
    simp only [step] at h
    split_ifs at h
    cases h
    exact hs.of_sender rfl rfl rfl

/-! ## What one step does to a waiting send thread -/

theorem notified_senderStep {s s' : SendLoop μ} {outbox : List μ} (hg : s.Guarded)
    (hs : s.Notified) (h : s.senderStep outbox = some s') : s'.Notified := by
  intro hw
  cases hp : s.sender <;> simp only [senderStep, hp] at h
  case testRunning =>
    cases h
    rcases hw with hw | hw <;> (dsimp only at hw; split_ifs at hw)
  case acquire =>
    split_ifs at h
    cases h
    rcases hw with hw | hw <;> cases hw
  case evalPredicate =>
    cases h
    apply Or.inl
    rcases hw with hw | hw
    · -- the send thread goes on to block only if the outbox is empty
      dsimp only at hw
      split_ifs at hw with hpred
      push Not at hpred
      exact hpred.1
    · dsimp only at hw
      split_ifs at hw
  case block =>
    cases h
    exact (hs (.inl hp)).imp_right fun hn =>
      absurd hn (hg.not_notifying (by rw [hp]; rfl))
  case blocked => cases h
  case wake =>
    split_ifs at h
    cases h
    rcases hw with hw | hw <;> cases hw
  case testSend =>
    cases h
    rcases hw with hw | hw <;> (dsimp only at hw; split_ifs at hw)
  case sendMessages =>
    cases h
    rcases hw with hw | hw <;> cases hw
  case release =>
    cases h
    rcases hw with hw | hw <;> cases hw
  case exited => cases h

/-- `notify_all` wakes a blocked send thread. -/
theorem block_of_notifyAll {s : SendLoop μ} (h : s.notifyAll.Waiting) : s.sender = .block := by
  unfold Waiting notifyAll at h
  by_cases hb : s.sender = .blocked
  · simp [hb] at h
  · simpa [hb] using h

theorem notified_callerStep {s s' : SendLoop μ} {n : ℕ} (hg : s.Guarded) (hs : s.Notified)
    (h : s.callerStep n = some s') : s'.Notified := by
  intro hw
  cases hp : s.callers n with
  | idle => simp [callerStep, hp] at h
  | push m =>
    simp only [callerStep, hp] at h
    cases h
    exact .inr ⟨n, Function.update_self _ _ _⟩
  | notify =>
    simp only [callerStep, hp] at h
    cases h
    -- only a send thread between its predicate and its block would be missed
    have hb : s.sender = .block := block_of_notifyAll hw
    exact absurd ⟨n, hp⟩ (hg.not_notifying (by rw [hb]; rfl))
  | release =>
    simp only [callerStep, hp] at h
    cases h
    refine (hs hw).imp_right fun ⟨k, hk⟩ => ⟨k, ?_⟩
    have hkn : k ≠ n := by
      rintro rfl
      rw [hp] at hk
      cases hk
    exact (Function.update_of_ne hkn _ _).trans hk

theorem notified_sendMessage {s s' : SendLoop μ} {n : ℕ} {m : μ} (hs : s.Notified)
    (h : s.step (.sendMessage n m) = some s') : s'.Notified := by
  intro hw
  simp only [step] at h
  split at h
  · next hp =>
    split_ifs at h
    cases h
    refine (hs hw).imp_right fun ⟨k, hk⟩ => ⟨k, ?_⟩
    have hkn : k ≠ n := by
      rintro rfl
      rw [hp] at hk
      cases hk
    exact (Function.update_of_ne hkn _ _).trans hk
  · cases h

theorem notified_terminatorStep {s s' : SendLoop μ} (hs : s.Notified)
    (h : s.terminatorStep = some s') : s'.Notified := by
  unfold terminatorStep at h
  split at h
  · cases h
    exact hs
  · cases h
    exact fun hw => hs (.inl (block_of_notifyAll hw))
  · split_ifs at h
    cases h
    exact hs
  · split_ifs at h
    cases h
    exact hs
  · cases h

/-- **One step misses no wake-up.** -/
theorem notified_step {s s' : SendLoop μ} {a : SendLoopAct μ} (hg : s.Guarded) (hs : s.Notified)
    (h : s.step a = some s') : s'.Notified := by
  cases a with
  | sender outbox => exact notified_senderStep hg hs h
  | sendMessage n m => exact notified_sendMessage hs h
  | caller n => exact notified_callerStep hg hs h
  | terminator => exact notified_terminatorStep hs h
  | receiveExit =>
    simp only [step] at h
    split_ifs at h
    cases h
    exact hs

/-- **No missed wake-up.** In every state that any number of callers, the send thread and
`TerminateMQThread` reach: if the send thread is blocked, no notification is pending and no
`SendMessage` call is between its push and its `notify_all`, then the outbox is empty. -/
theorem no_missed_wakeup {s : SendLoop μ} {as : List (SendLoopAct μ)}
    (h : exec step init as = some s) (hb : s.sender = .blocked)
    (hn : ∀ n, s.callers n ≠ .notify) : s.outbox = [] := by
  have hs := exec_invariant (I := fun s : SendLoop μ => s.Guarded ∧ s.Notified)
    (fun _ _ _ hs hstep => ⟨guarded_step hs.1 hstep, notified_step hs.1 hs.2 hstep⟩) h
    ⟨guarded_init, notified_init⟩
  rcases hs.2 (.inr hb) with ho | ⟨n, hnotify⟩
  · exact ho
  · exact absurd hnotify (hn n)

/-- A message is pushed, sent by a medium that leaves nothing, and the send thread blocks. -/
theorem no_missed_wakeup_sent :
    ∃ s : SendLoop ℕ, exec step init [.sender [], .sendMessage 7 0, .caller 7, .caller 7, .caller 7,
        .sender [], .sender [], .sender [], .sender [], .sender [], .sender [], .sender [],
        .sender [], .sender []] = some s ∧ s.sender = .blocked ∧ s.outbox = [] := by
  refine ⟨_, rfl, rfl, no_missed_wakeup (show exec step init [.sender [], .sendMessage 7 0,
    .caller 7, .caller 7, .caller 7, .sender [], .sender [], .sender [], .sender [], .sender [],
    .sender [], .sender [], .sender [], .sender []] = some _ from rfl) rfl fun n => ?_⟩
  by_cases hn : n = 7
  · subst hn
    exact fun h => nomatch h
  · simp [Function.update_of_ne hn, init]

end SendLoop

end Petunia.Threads
