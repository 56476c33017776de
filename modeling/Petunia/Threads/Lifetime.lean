import Petunia.Threads.Steps

set_option autoImplicit false

/-!
# The lifetime of a `Petunia` object

The send thread with its callers as in `SendLoop`, the receive thread with its listeners, and the
destructor, which terminates both and then deletes them and the medium. A listener may call
`SendMessage`; it does so as caller `0`.

A medium's `ReceiveMessages` finds the inbox empty and returns whether it has put something into it.
A step of a thread that calls the medium or a listener is the return of the call; nothing says that
it comes.

* `ReceiverPc`, `DestructorPc`: the program counters, named after the next step;
* `Lifetime`, `Lifetime.step`: all threads under any interleaving;
* `Effect`, **`step_effect`**: what one step can do; `reaches_loop`: a run is one of `SendLoop`;
* `Sound`, **`sound_step`**: what the joins guarantee;
* **`shutdown_sound`**: what the destructor finds when it deletes the threads and the medium
  (`shutdown_sound_ended`: everything received was dispatched, but a message pushed was not sent).
-/

namespace Petunia.Threads

open Lts

variable {μ : Type*}

/-- The next step of `ReceiveThreadLoop`, with `Distribute`. No other thread locks
`m_receive_lock`. -/
inductive ReceiverPc (μ : Type*)
  | testRunning
  | enqueueReceivedMessages
  | sleep
  /-- `while (!m_inbox_queue.empty())`. -/
  | distribute
  /-- Inside the listeners of a message. -/
  | listening (message : μ)
  | exited

/-- The next step of `~Petunia`. -/
inductive DestructorPc
  | terminateMQThread
  | deleteThreads
  | deleteMedium
  | done
  deriving DecidableEq

/-- The object and its threads; `received` is everything that the medium has put into the inbox, and
`dispatched` what has been passed to listeners. -/
structure Lifetime (μ : Type*) where
  loop : SendLoop μ
  receiver : ReceiverPc μ
  inbox : List μ
  received : List μ
  dispatched : List μ
  destructor : DestructorPc

/-- The steps. -/
inductive LifetimeAct (μ : Type*)
  /-- The send thread; `outbox` is what a medium's `SendMessages` leaves. -/
  | sender (outbox : List μ)
  /-- A thread, or for `0` a listener, calls `SendMessage`. -/
  | sendMessage (n : ℕ) (message : μ)
  | caller (n : ℕ)
  /-- The receive thread; `messages` is what a medium's `ReceiveMessages` finds. -/
  | receiver (messages : List μ)
  | destructor

/-- The step of the send loop that belongs to an action. -/
def LifetimeAct.loopAct : LifetimeAct μ → Option (SendLoopAct μ)
  | .sender outbox => some (.sender outbox)
  | .sendMessage n m => some (.sendMessage n m)
  | .caller n => some (.caller n)
  | .receiver _ => none
  | .destructor => some .terminator

namespace Lifetime

/-- After the constructor. -/
def init : Lifetime μ := ⟨.init, .testRunning, [], [], [], .terminateMQThread⟩

/-- A step of the send loop. -/
def loopStep (s : Lifetime μ) (a : SendLoopAct μ) : Option (Lifetime μ) :=
  (s.loop.step a).map fun loop => { s with loop }

/-- One step of `ReceiveThreadLoop`. -/
def receiverStep (s : Lifetime μ) (messages : List μ) : Option (Lifetime μ) :=
  match s.receiver with
  | .testRunning =>
    if s.loop.running then some { s with receiver := .enqueueReceivedMessages }
    else { s with receiver := .exited }.loopStep .receiveExit
  | .enqueueReceivedMessages => some { s with
      inbox := s.inbox ++ messages
      received := s.received ++ messages
      receiver := if messages = [] then .sleep else .distribute }
  | .sleep => some { s with receiver := .testRunning }
  | .distribute =>
    match s.inbox with
    | [] => some { s with receiver := .testRunning }
    | m :: inbox => some { s with
        inbox
        dispatched := s.dispatched ++ [m]
        receiver := .listening m }
  | .listening _ =>
    match s.loop.callers 0 with
    | .idle => some { s with receiver := .distribute }
    | _ => none
  | .exited => none

/-- One step of `~Petunia`. -/
def destructorStep (s : Lifetime μ) : Option (Lifetime μ) :=
  match s.destructor with
  | .terminateMQThread =>
    if s.loop.terminator = .done then some { s with destructor := .deleteThreads }
    else s.loopStep .terminator
  | .deleteThreads => some { s with destructor := .deleteMedium }
  | .deleteMedium => some { s with destructor := .done }
  | .done => none

/-- One step of a thread. -/
def step (s : Lifetime μ) : LifetimeAct μ → Option (Lifetime μ)
  | .sender outbox => s.loopStep (.sender outbox)
  | .sendMessage 0 m =>
    match s.receiver with
    | .listening _ => s.loopStep (.sendMessage 0 m)
    | _ => none
  | .sendMessage (n + 1) m => s.loopStep (.sendMessage (n + 1) m)
  | .caller n => s.loopStep (.caller n)
  | .receiver messages => s.receiverStep messages
  | .destructor => s.destructorStep

/-! ## What one step does -/

/-- The effects of one step. -/
inductive Effect (s : Lifetime μ) : LifetimeAct μ → Lifetime μ → Prop
  | loop {a : LifetimeAct μ} {b : SendLoopAct μ} {loop : SendLoop μ} (hb : a.loopAct = some b)
    (hd : b = .terminator → s.destructor = .terminateMQThread)
    (hn : ∀ m, b = .sendMessage 0 m → ∃ m', s.receiver = .listening m')
    (h : s.loop.step b = some loop) : Effect s a { s with loop }
  | testRunning (messages : List μ) (hp : s.receiver = .testRunning)
    (hr : s.loop.running = true) :
    Effect s (.receiver messages) { s with receiver := .enqueueReceivedMessages }
  | exit {loop : SendLoop μ} (messages : List μ) (hp : s.receiver = .testRunning)
    (h : s.loop.step .receiveExit = some loop) :
    Effect s (.receiver messages) { s with loop, receiver := .exited }
  | enqueue (messages : List μ) (hp : s.receiver = .enqueueReceivedMessages) :
    Effect s (.receiver messages) { s with
      inbox := s.inbox ++ messages
      received := s.received ++ messages
      receiver := if messages = [] then .sleep else .distribute }
  | sleep (messages : List μ) (hp : s.receiver = .sleep) :
    Effect s (.receiver messages) { s with receiver := .testRunning }
  | distributed (messages : List μ) (hp : s.receiver = .distribute) (hi : s.inbox = []) :
    Effect s (.receiver messages) { s with receiver := .testRunning }
  | dispatch {m : μ} {inbox : List μ} (messages : List μ) (hp : s.receiver = .distribute)
    (hi : s.inbox = m :: inbox) :
    Effect s (.receiver messages) { s with
      inbox
      dispatched := s.dispatched ++ [m]
      receiver := .listening m }
  | listened {m : μ} (messages : List μ) (hp : s.receiver = .listening m)
    (hc : s.loop.callers 0 = .idle) :
    Effect s (.receiver messages) { s with receiver := .distribute }
  | deleteThreads (hd : s.destructor = .terminateMQThread) (ht : s.loop.terminator = .done) :
    Effect s .destructor { s with destructor := .deleteThreads }
  | deleteMedium (hd : s.destructor = .deleteThreads) :
    Effect s .destructor { s with destructor := .deleteMedium }
  | done (hd : s.destructor = .deleteMedium) : Effect s .destructor { s with destructor := .done }

variable {s s' : Lifetime μ} {a : LifetimeAct μ}

theorem effect_receiver {messages : List μ} (h : s.receiverStep messages = some s') :
    Effect s (.receiver messages) s' := by
  cases hp : s.receiver with
  | testRunning =>
    simp only [receiverStep, hp] at h
    split_ifs at h with hr
    · obtain rfl := Option.some.inj h
      exact .testRunning messages hp hr
    · obtain ⟨loop, hl, rfl⟩ := Option.map_eq_some_iff.mp h
      exact .exit messages hp hl
  | enqueueReceivedMessages =>
    simp only [receiverStep, hp, Option.some.injEq] at h
    subst h
    exact .enqueue messages hp
  | sleep =>
    simp only [receiverStep, hp, Option.some.injEq] at h
    subst h
    exact .sleep messages hp
  | distribute =>
    cases hi : s.inbox with
    | nil =>
      simp only [receiverStep, hp, hi, Option.some.injEq] at h
      subst h
      have := Effect.distributed messages hp hi
      rwa [hi] at this
    | cons m inbox =>
      simp only [receiverStep, hp, hi, Option.some.injEq] at h
      subst h
      exact .dispatch messages hp hi
  | listening m =>
    simp only [receiverStep, hp] at h
    split at h
    · next hc =>
      obtain rfl := Option.some.inj h
      exact .listened messages hp hc
    · cases h
  | exited =>
    simp only [receiverStep, hp, reduceCtorEq] at h

/-- **What one step does.** -/
theorem step_effect (h : s.step a = some s') : Effect s a s' := by
  cases a with
  | sender outbox =>
    obtain ⟨loop, hl, rfl⟩ := Option.map_eq_some_iff.mp h
    exact .loop rfl (fun hb => by cases hb) (fun _ hb => by cases hb) hl
  | sendMessage n m =>
    cases n with
    | zero =>
      simp only [step] at h
      split at h
      · next m' hp =>
        obtain ⟨loop, hl, rfl⟩ := Option.map_eq_some_iff.mp h
        exact .loop rfl (fun hb => by cases hb) (fun _ _ => ⟨m', hp⟩) hl
      · cases h
    | succ n =>
      obtain ⟨loop, hl, rfl⟩ := Option.map_eq_some_iff.mp h
      exact .loop rfl (fun hb => by cases hb) (fun _ hb => by cases hb) hl
  | caller n =>
    obtain ⟨loop, hl, rfl⟩ := Option.map_eq_some_iff.mp h
    exact .loop rfl (fun hb => by cases hb) (fun _ hb => by cases hb) hl
  | receiver messages => exact effect_receiver h
  | destructor =>
    cases hd : s.destructor with
    | terminateMQThread =>
      simp only [step, destructorStep, hd] at h
      split_ifs at h with ht
      · obtain rfl := Option.some.inj h
        exact .deleteThreads hd ht
      · obtain ⟨loop, hl, rfl⟩ := Option.map_eq_some_iff.mp h
        exact .loop rfl (fun _ => hd) (fun _ hb => by cases hb) hl
    | deleteThreads =>
      simp only [step, destructorStep, hd, Option.some.injEq] at h
      subst h
      exact .deleteMedium hd
    | deleteMedium =>
      simp only [step, destructorStep, hd, Option.some.injEq] at h
      subst h
      exact .done hd
    | done => simp only [step, destructorStep, hd, reduceCtorEq] at h

/-! ## What the joins guarantee -/

/-- What holds of the object and its threads at any time. -/
structure Sound (s : Lifetime μ) : Prop where
  joined : s.loop.Joined
  exited : s.loop.receiveExited = true ↔ s.receiver = .exited
  destructor : s.destructor ≠ .terminateMQThread → s.loop.terminator = .done
  inbox : s.inbox ≠ [] → s.receiver = .distribute ∨ ∃ m, s.receiver = .listening m
  received : s.dispatched ++ s.inbox = s.received

theorem sound_init : Sound (init : Lifetime μ) where
  joined := SendLoop.joined_init
  exited := by simp [init, SendLoop.init]
  destructor := by simp [init]
  inbox := by simp [init]
  received := rfl

/-- Only `Distribute` finds something in the inbox. -/
theorem Sound.inbox_eq (hs : s.Sound) (hd : s.receiver ≠ .distribute)
    (hl : ∀ m, s.receiver ≠ .listening m) : s.inbox = [] := by
  by_contra hne
  rcases hs.inbox hne with h | ⟨m, h⟩
  · exact hd h
  · exact hl m h

/-- A running receive thread has not been reported as ended. -/
theorem Sound.not_exited (hs : s.Sound) (hp : s.receiver ≠ .exited) : s.loop.receiveExited = false :=
  Bool.eq_false_iff.mpr fun h => hp (hs.exited.mp h)

/-- The receive thread goes on. -/
theorem Sound.goto (hs : s.Sound) (hp : s.receiver ≠ .exited) {pc : ReceiverPc μ}
    (hpc : pc ≠ .exited) {inbox received dispatched : List μ}
    (hi : inbox ≠ [] → pc = .distribute ∨ ∃ m, pc = .listening m)
    (hr : dispatched ++ inbox = received) :
    Sound { s with receiver := pc, inbox, received, dispatched } where
  joined := hs.joined
  exited := by simp [hs.not_exited hp, hpc]
  destructor := hs.destructor
  inbox := hi
  received := hr

/-- **One step keeps it.** -/
theorem sound_step (hs : s.Sound) (h : s.step a = some s') : s'.Sound := by
  cases step_effect h with
  | @loop _ b loop hb hd hn hl =>
    have hb' : b ≠ .receiveExit := by
      rintro rfl
      cases a <;> cases hb
    refine ⟨SendLoop.joined_step hs.joined hl, ?_, fun hd' => ?_, hs.inbox, hs.received⟩
    · rw [SendLoop.receiveExited_eq hl hb']
      exact hs.exited
    · exact SendLoop.terminator_eq_done hl (hs.destructor hd')
  | testRunning messages hp hr =>
    have hi := hs.inbox_eq (by simp [hp]) (by simp [hp])
    exact hs.goto (by simp [hp]) (by simp) (fun hne => absurd hi hne) hs.received
  | @exit loop messages hp hl =>
    refine ⟨SendLoop.joined_step hs.joined hl, ?_, fun hd' => ?_, fun hne => ?_, hs.received⟩
    · cases SendLoop.step_effect hl
      exact iff_of_true rfl rfl
    · exact SendLoop.terminator_eq_done hl (hs.destructor hd')
    · exact absurd (hs.inbox_eq (by simp [hp]) (by simp [hp])) hne
  | enqueue messages hp =>
    have hi := hs.inbox_eq (by simp [hp]) (by simp [hp])
    refine hs.goto (by simp [hp]) (by split_ifs <;> simp) (fun hne => ?_) ?_
    · rw [hi, List.nil_append] at hne
      exact .inl (if_neg hne)
    · rw [← List.append_assoc, hs.received]
  | sleep messages hp =>
    have hi := hs.inbox_eq (by simp [hp]) (by simp [hp])
    exact hs.goto (by simp [hp]) (by simp) (fun hne => absurd hi hne) hs.received
  | distributed messages hp hi =>
    exact hs.goto (by simp [hp]) (by simp) (fun hne => absurd hi hne) hs.received
  | @dispatch m inbox messages hp hi =>
    refine hs.goto (by simp [hp]) (by simp) (fun _ => .inr ⟨m, rfl⟩) ?_
    rw [← hs.received, hi, List.append_assoc]
    rfl
  | listened messages hp hc =>
    exact hs.goto (by simp [hp]) (by simp) (fun _ => .inl rfl) hs.received
  | deleteThreads hd ht => exact ⟨hs.joined, hs.exited, fun _ => ht, hs.inbox, hs.received⟩
  | deleteMedium hd =>
    exact ⟨hs.joined, hs.exited, fun _ => hs.destructor (by simp [hd]), hs.inbox, hs.received⟩
  | done hd =>
    exact ⟨hs.joined, hs.exited, fun _ => hs.destructor (by simp [hd]), hs.inbox, hs.received⟩

/-- **A run of the object is a run of its send loop.** -/
theorem reaches_loop {as : List (LifetimeAct μ)} (h : exec step init as = some s) :
    Reaches SendLoop.step SendLoop.init s.loop := by
  refine exec_invariant (I := fun s => Reaches SendLoop.step SendLoop.init s.loop)
    (fun s a s' hr hstep => ?_) h (.refl _)
  cases step_effect hstep with
  | loop hb hd hn h => exact hr.trans (.single h)
  | exit messages hp h => exact hr.trans (.single h)
  | _ => exact hr

/-- **What the destructor finds.** In every run, what has been dispatched and what is in the inbox
are what the medium has handed over, in order; and when the destructor deletes the threads and the
medium, both threads have left their loops, and nothing that was received is left undispatched. -/
theorem shutdown_sound {as : List (LifetimeAct μ)} (h : exec step init as = some s) :
    s.dispatched ++ s.inbox = s.received ∧ (s.destructor ≠ .terminateMQThread →
      s.loop.sender = .exited ∧ s.receiver = .exited ∧ s.dispatched = s.received) := by
  have hs : s.Sound := exec_invariant (fun _ _ _ => sound_step) h sound_init
  refine ⟨hs.received, fun hd => ?_⟩
  have ht := hs.destructor hd
  have hexit := hs.exited.mp (hs.joined.receive (.inr ht))
  refine ⟨hs.joined.send ht, hexit, ?_⟩
  have hi := hs.inbox_eq (by simp [hexit]) (by simp [hexit])
  rw [← hs.received, hi, List.append_nil]

/-- A message is received and its listener answers, but the send thread does not come to it before
`m_running` is cleared. -/
def answered : List (LifetimeAct ℕ) :=
  [.receiver [], .receiver [7], .receiver [], .sendMessage 0 8, .caller 0, .caller 0, .caller 0,
    .receiver [], .receiver [], .destructor, .destructor]

/-- The threads end, and the destructor with them. -/
def ended : List (LifetimeAct ℕ) :=
  [.receiver [], .sender [], .destructor, .destructor, .destructor]

theorem shutdown_sound_ended : ∃ s, exec step init (answered ++ ended) = some s ∧
    s.destructor = .deleteThreads ∧ s.loop.outbox = [8] ∧ s.received = [7] ∧
      (s.destructor ≠ .terminateMQThread →
        s.loop.sender = .exited ∧ s.receiver = .exited ∧ s.dispatched = s.received) :=
  ⟨_, rfl, rfl, rfl, rfl,
    (shutdown_sound (show exec step init (answered ++ ended) = some _ from rfl)).2⟩

end Lifetime

end Petunia.Threads
