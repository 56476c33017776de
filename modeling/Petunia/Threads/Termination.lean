import Petunia.Threads.Lifetime
import Petunia.Threads.Shutdown
import Petunia.Threads.Wakeup

set_option autoImplicit false

/-!
# The destructor returns

After a `notify_all` that reaches the send thread nothing can keep `~Petunia` from returning but
calls of `SendMessage` that never end and a call to the medium or to a listener that does not return:
every other step brings the two threads closer to the end of their loops.

* `SendLoop.potential`, `SendLoop.potential_lt`: the steps that the send loop has left;
* `Lifetime.potential`, **`potential_lt`**: those of the object;
* `CallsOut`, `Stuck`, **`done_of_stuck`**: if no call to the medium or to a listener is under way, the
  destructor is the last to stop;
* **`terminates`**: every schedule ends, with the destructor or in such a call.
-/

namespace Petunia.Threads

open Lts

variable {μ : Type*}

/-! ## The send loop -/

/-- The steps to the end of `SendThreadLoop`, with `m_running` cleared. -/
def SenderPc.weight : SenderPc → ℕ
  | .acquire | .wake => 5
  | .evalPredicate => 4
  | .testSend | .sendMessages => 3
  | .release => 2
  | .testRunning => 1
  | .block | .blocked | .exited => 0

/-- The steps to the end of `SendMessage`. -/
def CallerPc.weight : CallerPc μ → ℕ
  | .push _ => 3
  | .notify => 2
  | .release => 1
  | .idle => 0

/-- The steps to the end of `TerminateMQThread`, after its `notify_all`. -/
def TerminatorPc.weight : TerminatorPc → ℕ
  | .joinReceive => 2
  | .joinSend => 1
  | .clearRunning | .notify | .done => 0

/-- What an action adds to the steps that are left. -/
def SendLoopAct.cost : SendLoopAct μ → ℕ
  | .sendMessage _ _ => 4
  | .sender _ | .caller _ | .terminator | .receiveExit => 0

namespace SendLoop

variable {s s' : SendLoop μ} {a : SendLoopAct μ}

/-- The steps of the call that holds the lock; no other call is under way. -/
def callWeight (callers : ℕ → CallerPc μ) : Option Owner → ℕ
  | some (.caller n) => (callers n).weight
  | some .sender => 0
  | none => 0

/-- The steps that are left. -/
def potential (s : SendLoop μ) : ℕ :=
  s.sender.weight + callWeight s.callers s.lock + s.terminator.weight

/-- **Every step of the send loop after the notification** leaves fewer, but for a new call. -/
theorem potential_lt (hg : s.Guarded) (hi : s.Inv) (hn : s.terminator.notified = true)
    (h : s.step a = some s') (ha : a ≠ .receiveExit) : s'.potential < s.potential + a.cost := by
  have hrun := stopped_of_notified hi hn
  have hawake := hi.awake hn
  cases step_effect h with
  | testRunning outbox hp =>
    simp only [potential, hp, hrun, SenderPc.weight, Bool.false_eq_true, if_false]
    omega
  | acquire outbox hp hl =>
    have hw : s.sender.weight = 5 := by rcases hp with hp | hp <;> rw [hp] <;> rfl
    have hw' : SenderPc.evalPredicate.weight = 4 := rfl
    simp only [potential, hl, hw, hw', callWeight]
    omega
  | evalPredicate outbox hp =>
    simp only [potential, hp, hrun, or_true, if_true, SenderPc.weight]
    omega
  | block outbox hp => exact absurd hp hawake.1
  | testSend outbox hp =>
    simp only [potential, hp, hrun, SenderPc.weight, Bool.false_eq_true, if_false]
    omega
  | sendMessages outbox hp =>
    simp only [potential, hp, SenderPc.weight]
    omega
  | release outbox hp =>
    have hl := hg.sender.mp (by rw [hp]; rfl)
    simp only [potential, hl, hp, callWeight, SenderPc.weight]
    omega
  | call n m hc hl =>
    simp only [potential, hl, callWeight, Function.update_self, CallerPc.weight, SendLoopAct.cost]
    omega
  | push n hc =>
    have hl := (hg.caller n).mp (by rw [hc]; rfl)
    simp only [potential, hl, callWeight, Function.update_self, hc, CallerPc.weight]
    omega
  | notify n hc =>
    have hl := (hg.caller n).mp (by rw [hc]; rfl)
    have hl' : s.notifyAll.lock = some (.caller n) := hl
    have ht : s.notifyAll.terminator = s.terminator := rfl
    have hw : CallerPc.release (μ := μ).weight = 1 := rfl
    have hw' : CallerPc.notify (μ := μ).weight = 2 := rfl
    simp only [potential, hl, hl', ht, callWeight, Function.update_self, hc, hw, hw',
      sender_notifyAll_of_ne hawake.2]
    omega
  | leave n hc =>
    have hl := (hg.caller n).mp (by rw [hc]; rfl)
    simp only [potential, hl, callWeight, hc, CallerPc.weight]
    omega
  | clearRunning ht | notifyAll ht => simp [ht, TerminatorPc.notified] at hn
  | joinReceive ht hr =>
    simp only [potential, ht, TerminatorPc.weight]
    omega
  | joinSend ht hs =>
    simp only [potential, ht, TerminatorPc.weight]
    omega
  | receiveExit hr => exact absurd rfl ha

/-- The notification has been given. -/
theorem notified_of_step (h : s.step a = some s') (hn : s.terminator.notified = true) :
    s'.terminator.notified = true := by
  cases step_effect h with
  | clearRunning ht => simp [ht, TerminatorPc.notified] at hn
  | notifyAll | joinReceive | joinSend => rfl
  | _ => exact hn

/-! ### Which steps are enabled -/

/-- A call under way goes on. -/
theorem isSome_callerStep {n : ℕ} (h : s.callers n ≠ .idle) : (s.callerStep n).isSome := by
  cases hc : s.callers n with
  | idle => exact absurd hc h
  | push | notify | release => simp [callerStep, hc]

/-- Without a call under way the send thread goes on until it leaves its loop. -/
theorem isSome_senderStep (hg : s.Guarded) (hidle : ∀ n, s.callers n = .idle)
    (hb : s.sender ≠ .blocked) (he : s.sender ≠ .exited) : (s.senderStep s.outbox).isSome := by
  have hfree : s.sender.holdsLock = false → s.lock = none := fun hp => by
    cases hl : s.lock with
    | none => rfl
    | some o =>
      cases o with
      | sender =>
        rw [hg.sender.mpr hl] at hp
        cases hp
      | caller n =>
        have := (hg.caller n).mpr hl
        rw [hidle n] at this
        cases this
  cases hp : s.sender with
  | blocked => exact absurd hp hb
  | exited => exact absurd hp he
  | acquire | wake => simp [senderStep, hp, hfree (by rw [hp]; rfl)]
  | testRunning | evalPredicate | block | testSend | sendMessages | release =>
    simp [senderStep, hp]

end SendLoop

/-! ## The object -/

/-- The steps to the end of `ReceiveThreadLoop`, with `m_running` cleared and an empty inbox. -/
def ReceiverPc.weight : ReceiverPc μ → ℕ
  | .enqueueReceivedMessages | .listening _ => 3
  | .sleep | .distribute => 2
  | .testRunning => 1
  | .exited => 0

/-- The steps to the end of `~Petunia`, without those of `TerminateMQThread`. -/
def DestructorPc.weight : DestructorPc → ℕ
  | .terminateMQThread => 3
  | .deleteThreads => 2
  | .deleteMedium => 1
  | .done => 0

/-- What an action adds to the steps that are left: a call, or messages to be dispatched. -/
def LifetimeAct.cost : LifetimeAct μ → ℕ
  | .sendMessage _ _ => 4
  | .receiver messages => 2 * messages.length
  | .sender _ | .caller _ | .destructor => 0

/-- `notify_all` does not fall between the send thread's predicate and its block. -/
def LifetimeAct.ReachesWaiter (s : Lifetime μ) (a : LifetimeAct μ) : Prop :=
  ∀ b ∈ a.loopAct, b.ReachesWaiter s.loop

instance (s : Lifetime μ) (a : LifetimeAct μ) : Decidable (a.ReachesWaiter s) :=
  inferInstanceAs (Decidable (∀ b ∈ a.loopAct, b.ReachesWaiter s.loop))

/-- The receive thread is inside a call of `ReceiveMessages`, or of a listener. -/
def ReceiverPc.CallsOut : ReceiverPc μ → Prop
  | .enqueueReceivedMessages | .listening _ => True
  | .testRunning | .sleep | .distribute | .exited => False

/-- The step is the return of a call to the medium or to a listener. -/
def LifetimeAct.Returns (s : Lifetime μ) : LifetimeAct μ → Prop
  | .sender _ => s.loop.sender = .sendMessages
  | .receiver _ => s.receiver.CallsOut
  | .destructor => s.destructor = .deleteMedium
  | .sendMessage _ _ | .caller _ => False

theorem LifetimeAct.cost_loopAct {a : LifetimeAct μ} {b : SendLoopAct μ} (h : a.loopAct = some b) :
    b.cost = a.cost := by
  cases a <;> cases h <;> rfl

namespace Lifetime

variable {s s' : Lifetime μ} {a : LifetimeAct μ}

/-- The steps that are left. -/
def potential (s : Lifetime μ) : ℕ :=
  s.loop.potential + s.receiver.weight + 2 * s.inbox.length + s.destructor.weight

/-- What holds from the notification on. -/
structure Notified (s : Lifetime μ) : Prop where
  sound : s.Sound
  guarded : s.loop.Guarded
  inv : s.loop.Inv
  notified : s.loop.terminator.notified = true

/-- **Every step after the notification** leaves fewer, but for new calls and messages. -/
theorem potential_lt (hs : s.Notified) (h : s.step a = some s') :
    s'.potential < s.potential + a.cost := by
  have hrun := SendLoop.stopped_of_notified hs.inv hs.notified
  cases step_effect h with
  | @loop _ b loop hb hd hn hl =>
    have hb' : b ≠ .receiveExit := by
      rintro rfl
      cases a <;> cases hb
    have hlt := SendLoop.potential_lt hs.guarded hs.inv hs.notified hl hb'
    rw [LifetimeAct.cost_loopAct hb] at hlt
    simp only [potential]
    omega
  | testRunning messages hp hr =>
    rw [hrun] at hr
    cases hr
  | @exit loop messages hp hl =>
    have hpot : loop.potential = s.loop.potential := by
      cases SendLoop.step_effect hl
      rfl
    simp only [potential, hpot, hp, ReceiverPc.weight]
    omega
  | enqueue messages hp =>
    by_cases hm : messages = []
    · simp only [potential, hp, hm, if_true, List.append_nil, ReceiverPc.weight]
      omega
    · simp only [potential, hp, if_neg hm, List.length_append, LifetimeAct.cost, ReceiverPc.weight]
      omega
  | sleep messages hp =>
    simp only [potential, hp, ReceiverPc.weight]
    omega
  | distributed messages hp hi =>
    simp only [potential, hp, ReceiverPc.weight]
    omega
  | dispatch messages hp hi =>
    simp only [potential, hp, hi, List.length_cons, ReceiverPc.weight]
    omega
  | listened messages hp hc =>
    simp only [potential, hp, ReceiverPc.weight]
    omega
  | deleteThreads hd ht =>
    simp only [potential, hd, DestructorPc.weight]
    omega
  | deleteMedium hd =>
    simp only [potential, hd, DestructorPc.weight]
    omega
  | done hd =>
    simp only [potential, hd, DestructorPc.weight]
    omega

/-- A step keeps what the send loop keeps. -/
theorem inv_step (hi : s.loop.Inv) (ha : a.ReachesWaiter s) (h : s.step a = some s') :
    s'.loop.Inv := by
  cases step_effect h with
  | loop hb hd hn hl => exact SendLoop.inv_step hi (ha _ hb) hl
  | exit messages hp hl => exact SendLoop.inv_step (a := .receiveExit) hi trivial hl
  | _ => exact hi

theorem guarded_step (hg : s.loop.Guarded) (h : s.step a = some s') : s'.loop.Guarded := by
  cases step_effect h with
  | loop hb hd hn hl => exact SendLoop.guarded_step hg hl
  | exit messages hp hl => exact SendLoop.guarded_step hg hl
  | _ => exact hg

/-- After the notification no step can miss the send thread any more. -/
theorem reachesWaiter (hn : s.loop.terminator.notified = true) : a.ReachesWaiter s := by
  intro b hb
  cases b with
  | terminator =>
    intro ht
    rw [ht] at hn
    cases hn
  | sender | sendMessage | caller | receiveExit => trivial

theorem notified_step (hs : s.Notified) (h : s.step a = some s') : s'.Notified := by
  refine ⟨sound_step hs.sound h, guarded_step hs.guarded h,
    inv_step hs.inv (reachesWaiter hs.notified) h, ?_⟩
  cases step_effect h with
  | loop hb hd hn hl => exact SendLoop.notified_of_step hl hs.notified
  | exit messages hp hl => exact SendLoop.notified_of_step hl hs.notified
  | _ => exact hs.notified

/-- A thread is inside a call of the medium's `SendMessages`, `ReceiveMessages` or destructor, or of a
listener. -/
def CallsOut (s : Lifetime μ) : Prop :=
  s.loop.sender = .sendMessages ∨ s.receiver.CallsOut ∨ s.destructor = .deleteMedium

/-- No thread can go on, unless `SendMessage` is called anew or a call to the medium or to a listener
returns. -/
def Stuck (s : Lifetime μ) : Prop :=
  ∀ a, (∀ n m, a ≠ .sendMessage n m) → ¬ a.Returns s → s.step a = none

/-- **The destructor is the last to stop**, unless a call to the medium or to a listener is under
way. -/
theorem done_of_stuck (hs : s.Notified) (h : s.Stuck) (hout : ¬ s.CallsOut) :
    s.destructor = .done := by
  rw [CallsOut, not_or, not_or] at hout
  obtain ⟨hsend, hrecv, hdelete⟩ := hout
  have hrun := SendLoop.stopped_of_notified hs.inv hs.notified
  have hidle : ∀ n, s.loop.callers n = .idle := by
    intro n
    by_contra hne
    have hsome := SendLoop.isSome_callerStep hne
    have := h (.caller n) (by simp) id
    rw [step, loopStep, Option.map_eq_none_iff] at this
    rw [show s.loop.callerStep n = none from this] at hsome
    cases hsome
  have hsender : s.loop.sender = .exited := by
    by_contra hne
    have hsome := SendLoop.isSome_senderStep hs.guarded hidle (hs.inv.awake hs.notified).2 hne
    have := h (.sender s.loop.outbox) (by simp) hsend
    rw [step, loopStep, Option.map_eq_none_iff] at this
    rw [show s.loop.senderStep s.loop.outbox = none from this] at hsome
    cases hsome
  have hreceiver : s.receiver = .exited := by
    have := h (.receiver []) (by simp) hrecv
    cases hp : s.receiver with
    | exited => rfl
    | testRunning => simp [step, receiverStep, hp, hrun, loopStep, SendLoop.step] at this
    | sleep => simp [step, receiverStep, hp] at this
    | distribute => cases hi : s.inbox <;> simp [step, receiverStep, hp, hi] at this
    | enqueueReceivedMessages | listening =>
      rw [hp] at hrecv
      exact absurd trivial hrecv
  have hexit := hs.sound.exited.mpr hreceiver
  have := h .destructor (by simp) hdelete
  cases hd : s.destructor with
  | done => rfl
  | deleteMedium => exact absurd hd hdelete
  | deleteThreads => simp [step, destructorStep, hd] at this
  | terminateMQThread =>
    cases ht : s.loop.terminator with
    | clearRunning | notify =>
      have hn := hs.notified
      simp [ht, TerminatorPc.notified] at hn
    | joinReceive | joinSend | done =>
      simp [step, destructorStep, hd, ht, loopStep, SendLoop.step, SendLoop.terminatorStep, hexit,
        hsender] at this

/-- **The destructor returns.** After a `notify_all` that reaches the send thread every schedule of
the threads comes to an end, and only new calls of `SendMessage` and the messages still received can
prolong it. When no thread can go on, the destructor is done, or a thread is inside a call to the
medium or to a listener, which does not return. -/
theorem terminates {t : Lifetime μ} {as bs : List (LifetimeAct μ)}
    (h : exec step init as = some s) (ha : Along step (fun s a => a.ReachesWaiter s) init as)
    (hn : s.loop.terminator.notified = true) (hb : exec step s bs = some t) :
    bs.length ≤ s.potential + (bs.map LifetimeAct.cost).sum ∧
      (t.Stuck → t.destructor = .done ∨ t.CallsOut) := by
  have hs : s.Notified :=
    ⟨exec_invariant (fun _ _ _ => sound_step) h sound_init,
      exec_invariant (I := fun s => s.loop.Guarded) (fun _ _ _ => guarded_step) h
        SendLoop.guarded_init,
      exec_invariant_along (I := fun s => s.loop.Inv) (fun _ _ _ => inv_step) h ha
        SendLoop.inv_init, hn⟩
  obtain ⟨ht, hle⟩ := exec_measure (C := fun _ _ => True)
    (fun _ _ _ hs _ hstep => ⟨notified_step hs hstep, potential_lt hs hstep⟩)
    hb (along_of_forall fun _ _ _ => trivial) hs
  refine ⟨Nat.le_trans (Nat.le_add_right _ _) hle, fun hstuck => ?_⟩
  by_cases hout : t.CallsOut
  · exact .inr hout
  · exact .inl (done_of_stuck ht hstuck hout)

theorem terminates_ended : ∃ s t : Lifetime ℕ, exec step init answered = some s ∧
    exec step s ended = some t ∧
      ended.length ≤ s.potential + (ended.map LifetimeAct.cost).sum ∧
      (t.Stuck → t.destructor = .done ∨ t.CallsOut) :=
  ⟨_, _, rfl, rfl, terminates (show exec step init answered = some _ from rfl) (by decide) rfl
    (show exec step _ ended = some _ from rfl)⟩

end Lifetime

end Petunia.Threads
