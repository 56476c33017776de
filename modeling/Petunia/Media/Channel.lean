import Petunia.Threads.Lifetime

set_option autoImplicit false

/-!
# Two objects on a channel

Two `Petunia` objects, each with its threads, its callers and its destructor, over one medium. A call
that a thread makes to the medium may take several steps, with those of all other threads and of the
medium itself in between.

* `Transport`: what the objects rely on: a call of `SendMessages` concerns the outbox of its object, a
  call of `ReceiveMessages` adds to the inbox of its object, and the destructor of the medium leaves
  both alone;
* `Channel`, `Channel.step`: both objects and the medium under any interleaving;
* `Channel.Effect`, **`step_effect`**: what one step can do;
* `Channel.Coupled`, **`coupled_exec`**: what the threads hold is what the medium has;
* **`medium_exec`**: the medium has made a run of its own, with what callers have pushed.
-/

namespace Petunia.Threads

open Lts

/-- What does not change in the direction of a step does not change at all. -/
theorem congr_of_step {γ β : Type*} {s t : Bool → γ} {x : Bool} {f : γ → β}
    (hx : f (t x) = f (s x)) (hy : ∀ y, y ≠ x → t y = s y) (z : Bool) : f (t z) = f (s z) := by
  by_cases hz : z = x
  · rw [hz, hx]
  · rw [hy z hz]

variable {μ σ α : Type*}

/-- The call that a step of a medium belongs to, of the object `x`, and whether the step begins it. -/
inductive MediumCall
  /-- No thread of an object makes it on its own. -/
  | none
  | sendMessages (x begins : Bool)
  | receiveMessages (x begins : Bool)
  | internal

/-- A medium between the objects `false` and `true`. -/
structure Transport (μ σ α : Type*) where
  step : σ → α → Option σ
  /-- `m_outbox_queue.push`. -/
  push : Bool → μ → α
  /-- `delete m_ipc_medium`. -/
  destroy : Bool → α
  call : α → MediumCall
  outbox : σ → Bool → List μ
  /-- Everything put into the inbox so far. -/
  inbox : σ → Bool → List μ
  /-- No call is in the middle. -/
  sendReturns : σ → Bool → Bool
  receiveReturns : σ → Bool → Bool
  push_spec : ∀ {s t x m}, step s (push x m) = some t → outbox t x = outbox s x ++ [m] ∧
    (∀ y, y ≠ x → outbox t y = outbox s y) ∧ inbox t = inbox s
  destroy_spec : ∀ {s t x}, step s (destroy x) = some t → outbox t = outbox s ∧ inbox t = inbox s
  send_spec : ∀ {s t a x b}, call a = .sendMessages x b → step s a = some t →
    (∀ y, y ≠ x → outbox t y = outbox s y) ∧ inbox t = inbox s
  receive_spec : ∀ {s t a x b}, call a = .receiveMessages x b → step s a = some t →
    inbox s x <+: inbox t x ∧ (∀ y, y ≠ x → inbox t y = inbox s y) ∧ outbox t = outbox s
  internal_spec : ∀ {s t a}, call a = .internal → step s a = some t →
    outbox t = outbox s ∧ inbox t = inbox s

/-- A step of the medium that pushes nothing but a message that satisfies `P`. -/
def Transport.Admits (M : Transport μ σ α) (P : μ → Prop) (a : α) : Prop :=
  M.call a ≠ .none ∨ (∃ x, a = M.destroy x) ∨ ∃ x m, a = M.push x m ∧ P m

/-- The receive thread is about to call the medium. -/
def ReceiverPc.calls : ReceiverPc μ → Bool
  | .enqueueReceivedMessages => true
  | _ => false

/-- Two objects and their medium. -/
structure Channel (μ σ : Type*) where
  object : Bool → Lifetime μ
  medium : σ
  /-- The send thread has begun its call of `SendMessages`. -/
  sending : Bool → Bool
  /-- The receive thread has begun its call of `ReceiveMessages`. -/
  receiving : Bool → Bool

/-- The steps: of the threads of the object `x`, or of the medium. -/
inductive ChannelAct (μ α : Type*)
  | sender (x : Bool)
  | receiver (x : Bool)
  | sendMessage (x : Bool) (n : ℕ) (message : μ)
  | caller (x : Bool) (n : ℕ)
  | destructor (x : Bool)
  | medium (a : α)

namespace Channel

/-- Two objects that have just been constructed. -/
def init (medium : σ) : Channel μ σ := ⟨fun _ => .init, medium, fun _ => false, fun _ => false⟩

/-- The state after a step that concerns the object `x`. -/
def set (s : Channel μ σ) (x : Bool) (o : Lifetime μ) (medium : σ) (sending receiving : Bool) :
    Channel μ σ where
  object := Function.update s.object x o
  medium
  sending := Function.update s.sending x sending
  receiving := Function.update s.receiving x receiving

/-- A step of a thread that does not call the medium. -/
def thread (s : Channel μ σ) (x : Bool) (a : LifetimeAct μ) : Option (Channel μ σ) :=
  ((s.object x).step a).map fun o => s.set x o s.medium (s.sending x) (s.receiving x)

/-- One step. -/
def step (M : Transport μ σ α) (s : Channel μ σ) : ChannelAct μ α → Option (Channel μ σ)
  | .sender x =>
    if (s.object x).loop.sender = .sendMessages then
      -- the call returns
      if s.sending x && M.sendReturns s.medium x then
        ((s.object x).step (.sender (M.outbox s.medium x))).map fun o =>
          s.set x o s.medium false (s.receiving x)
      else none
    else s.thread x (.sender [])
  | .receiver x =>
    if (s.object x).receiver.calls then
      if s.receiving x && M.receiveReturns s.medium x then
        let messages := (M.inbox s.medium x).drop (s.object x).received.length
        ((s.object x).step (.receiver messages)).map fun o =>
          s.set x o s.medium (s.sending x) false
      else none
    else s.thread x (.receiver [])
  | .sendMessage x n m => s.thread x (.sendMessage n m)
  | .caller x n =>
    match (s.object x).loop.callers n with
    | .push m => (M.step s.medium (M.push x m)).bind fun medium =>
        ((s.object x).step (.caller n)).map fun o =>
          s.set x o medium (s.sending x) (s.receiving x)
    | _ => s.thread x (.caller n)
  | .destructor x =>
    match (s.object x).destructor with
    | .deleteMedium => (M.step s.medium (M.destroy x)).bind fun medium =>
        ((s.object x).step .destructor).map fun o =>
          s.set x o medium (s.sending x) (s.receiving x)
    | _ => s.thread x .destructor
  | .medium a =>
    match M.call a with
    | .none => none
    | .sendMessages x begins =>
      if (s.object x).loop.sender = .sendMessages ∧ s.sending x = !begins then
        (M.step s.medium a).map fun medium => s.set x (s.object x) medium true (s.receiving x)
      else none
    | .receiveMessages x begins =>
      if (s.object x).receiver.calls ∧ s.receiving x = !begins then
        (M.step s.medium a).map fun medium => s.set x (s.object x) medium (s.sending x) true
      else none
    | .internal => (M.step s.medium a).map fun medium => { s with medium }

end Channel

/-! ## What a thread does to the outbox and the inbox -/

/-- What the next step of a caller pushes. -/
def CallerPc.pushes : CallerPc μ → List μ
  | .push m => [m]
  | _ => []

namespace SendLoop

variable {s s' : SendLoop μ} {a : SendLoopAct μ}

theorem outbox_sender {outbox : List μ} (h : s.step (.sender outbox) = some s') :
    s'.outbox = if s.sender = .sendMessages then outbox else s.outbox := by
  cases step_effect h with
  | testRunning _ hp | evalPredicate _ hp | block _ hp | testSend _ hp | release _ hp =>
    exact (if_neg (by simp [hp])).symm
  | acquire _ hp => exact (if_neg (by rcases hp with hp | hp <;> simp [hp])).symm
  | sendMessages _ hp => exact (if_pos hp).symm

theorem outbox_caller {n : ℕ} (h : s.step (.caller n) = some s') :
    s'.outbox = s.outbox ++ (s.callers n).pushes := by
  cases step_effect h with
  | push n hc => rw [hc]; rfl
  | notify n hc | leave n hc =>
    rw [hc]
    exact (List.append_nil _).symm

theorem outbox_other (h : s.step a = some s') (hs : ∀ outbox, a ≠ .sender outbox)
    (hc : ∀ n, a ≠ .caller n) : s'.outbox = s.outbox := by
  cases step_effect h with
  | testRunning | acquire | evalPredicate | block | testSend | sendMessages | release =>
    exact absurd rfl (hs _)
  | push | notify | leave => exact absurd rfl (hc _)
  | call | clearRunning | notifyAll | joinReceive | joinSend | receiveExit => rfl

/-- The other threads leave a send thread in its call. -/
theorem sender_other (h : s.step a = some s') (ha : ∀ outbox, a ≠ .sender outbox)
    (hs : s.sender = .sendMessages) : s'.sender = .sendMessages := by
  have hne : s.sender ≠ .blocked := by simp [hs]
  cases step_effect h with
  | testRunning | acquire | evalPredicate | block | testSend | sendMessages | release =>
    exact absurd rfl (ha _)
  | notify => exact (sender_notifyAll_of_ne hne).trans hs
  | notifyAll => exact (sender_notifyAll_of_ne hne).trans hs
  | call | push | leave | clearRunning | joinReceive | joinSend | receiveExit => exact hs

/-- A message to be pushed is one that was sent. -/
theorem callers_step (h : s.step a = some s') {n : ℕ} {m : μ} (hp : s'.callers n = .push m) :
    s.callers n = .push m ∨ a = .sendMessage n m := by
  have key : ∀ {k : ℕ} {pc : CallerPc μ}, Function.update s.callers k pc n = .push m →
      pc.pushes = [] → s.callers n = .push m := by
    intro k pc hk hpc
    by_cases hn : n = k
    · rw [hn, Function.update_self] at hk
      rw [hk] at hpc
      cases hpc
    · rwa [Function.update_of_ne hn] at hk
  cases step_effect h with
  | call k m' hc hl =>
    by_cases hn : n = k
    · subst hn
      have hm := (Function.update_self ..).symm.trans hp
      cases hm
      exact .inr rfl
    · exact .inl ((Function.update_of_ne hn ..).symm.trans hp)
  | push k hc => exact .inl (key hp rfl)
  | notify k hc => exact .inl (key hp rfl)
  | leave k hc => exact .inl (key hp rfl)
  | testRunning | acquire | evalPredicate | block | testSend | sendMessages | release
  | clearRunning | notifyAll | joinReceive | joinSend | receiveExit => exact .inl hp

end SendLoop

namespace Lifetime

variable {s s' : Lifetime μ} {a : LifetimeAct μ}

/-- A step of the send loop leaves the receiving side alone. -/
theorem of_loop (h : s.step a = some s') (ha : ∀ messages, a ≠ .receiver messages) :
    s'.receiver = s.receiver ∧ s'.received = s.received := by
  cases step_effect h with
  | loop | deleteThreads | deleteMedium | done => exact ⟨rfl, rfl⟩
  | testRunning | exit | enqueue | sleep | distributed | dispatch | listened =>
    exact absurd rfl (ha _)

/-- The receive thread leaves the send loop alone. -/
theorem of_receiver {messages : List μ} (h : s.step (.receiver messages) = some s') :
    s'.loop.outbox = s.loop.outbox ∧ s'.loop.sender = s.loop.sender ∧
      s'.loop.callers = s.loop.callers ∧
      s'.received = if s.receiver.calls then s.received ++ messages else s.received := by
  cases step_effect h with
  | loop hb => cases hb
  | testRunning _ hp | sleep _ hp | distributed _ hp | dispatch _ hp | listened _ hp =>
    rw [hp]
    exact ⟨rfl, rfl, rfl, rfl⟩
  | exit _ hp hl =>
    rw [hp]
    cases SendLoop.step_effect hl
    exact ⟨rfl, rfl, rfl, rfl⟩
  | enqueue _ hp =>
    rw [hp]
    exact ⟨rfl, rfl, rfl, rfl⟩

/-- A step that the send loop has a part in, or none. -/
theorem loop_step (h : s.step a = some s') (ha : ∀ messages, a ≠ .receiver messages) :
    s'.loop = s.loop ∨ ∃ b, a.loopAct = some b ∧ s.loop.step b = some s'.loop := by
  cases step_effect h with
  | loop hb hd hn hl => exact .inr ⟨_, hb, hl⟩
  | deleteThreads | deleteMedium | done => exact .inl rfl
  | testRunning | exit | enqueue | sleep | distributed | dispatch | listened =>
    exact absurd rfl (ha _)

/-- A message to be pushed is one that was sent. -/
theorem callers_step (h : s.step a = some s') {n : ℕ} {m : μ}
    (hp : s'.loop.callers n = .push m) : s.loop.callers n = .push m ∨ a = .sendMessage n m := by
  cases a with
  | receiver messages => exact .inl ((Lifetime.of_receiver h).2.2.1 ▸ hp)
  | sender | sendMessage | caller | destructor =>
    rcases loop_step h nofun with hl | ⟨b, hb, hl⟩
    · exact .inl (hl ▸ hp)
    · obtain rfl := Option.some.inj hb
      refine (SendLoop.callers_step hl hp).imp_right fun hb => ?_
      cases hb <;> rfl

end Lifetime

/-! ## What one step does -/

namespace Channel

/-- The effects of one step. -/
inductive Effect (M : Transport μ σ α) (s : Channel μ σ) : ChannelAct μ α → Channel μ σ → Prop
  | sender {x : Bool} {o : Lifetime μ} (hp : (s.object x).loop.sender ≠ .sendMessages)
    (ho : (s.object x).step (.sender []) = some o) :
    Effect M s (.sender x) (s.set x o s.medium (s.sending x) (s.receiving x))
  | sendReturns {x : Bool} {o : Lifetime μ} (hp : (s.object x).loop.sender = .sendMessages)
    (ho : (s.object x).step (.sender (M.outbox s.medium x)) = some o) :
    Effect M s (.sender x) (s.set x o s.medium false (s.receiving x))
  | receiver {x : Bool} {o : Lifetime μ} (hp : ¬ (s.object x).receiver.calls = true)
    (ho : (s.object x).step (.receiver []) = some o) :
    Effect M s (.receiver x) (s.set x o s.medium (s.sending x) (s.receiving x))
  | receiveReturns {x : Bool} {o : Lifetime μ} (hp : (s.object x).receiver.calls = true)
    (ho : (s.object x).step
      (.receiver ((M.inbox s.medium x).drop (s.object x).received.length)) = some o) :
    Effect M s (.receiver x) (s.set x o s.medium (s.sending x) false)
  | sendMessage {x : Bool} {n : ℕ} {m : μ} {o : Lifetime μ}
    (ho : (s.object x).step (.sendMessage n m) = some o) :
    Effect M s (.sendMessage x n m) (s.set x o s.medium (s.sending x) (s.receiving x))
  | push {x : Bool} {n : ℕ} {m : μ} {o : Lifetime μ} {medium : σ}
    (hc : (s.object x).loop.callers n = .push m)
    (hm : M.step s.medium (M.push x m) = some medium)
    (ho : (s.object x).step (.caller n) = some o) :
    Effect M s (.caller x n) (s.set x o medium (s.sending x) (s.receiving x))
  | caller {x : Bool} {n : ℕ} {o : Lifetime μ} (hc : ((s.object x).loop.callers n).pushes = [])
    (ho : (s.object x).step (.caller n) = some o) :
    Effect M s (.caller x n) (s.set x o s.medium (s.sending x) (s.receiving x))
  | destructor {x : Bool} {o : Lifetime μ} (ho : (s.object x).step .destructor = some o) :
    Effect M s (.destructor x) (s.set x o s.medium (s.sending x) (s.receiving x))
  | destroy {x : Bool} {o : Lifetime μ} {medium : σ} (hd : (s.object x).destructor = .deleteMedium)
    (hm : M.step s.medium (M.destroy x) = some medium)
    (ho : (s.object x).step .destructor = some o) :
    Effect M s (.destructor x) (s.set x o medium (s.sending x) (s.receiving x))
  | sendMessages {x begins : Bool} {b : α} {medium : σ} (hcall : M.call b = .sendMessages x begins)
    (hp : (s.object x).loop.sender = .sendMessages) (hm : M.step s.medium b = some medium) :
    Effect M s (.medium b) (s.set x (s.object x) medium true (s.receiving x))
  | receiveMessages {x begins : Bool} {b : α} {medium : σ}
    (hcall : M.call b = .receiveMessages x begins) (hp : (s.object x).receiver.calls = true)
    (hm : M.step s.medium b = some medium) :
    Effect M s (.medium b) (s.set x (s.object x) medium (s.sending x) true)
  | internal {b : α} {medium : σ} (hcall : M.call b = .internal)
    (hm : M.step s.medium b = some medium) : Effect M s (.medium b) { s with medium }

variable {M : Transport μ σ α} {s s' : Channel μ σ} {x : Bool} {a : ChannelAct μ α}

theorem effect_medium {b : α} (h : s.step M (.medium b) = some s') : Effect M s (.medium b) s' := by
  simp only [step] at h
  cases hcall : M.call b with
  | none => simp only [hcall, reduceCtorEq] at h
  | sendMessages x begins =>
    simp only [hcall] at h
    split_ifs at h with hp
    obtain ⟨medium, hm, rfl⟩ := Option.map_eq_some_iff.mp h
    exact .sendMessages hcall hp.1 hm
  | receiveMessages x begins =>
    simp only [hcall] at h
    split_ifs at h with hp
    obtain ⟨medium, hm, rfl⟩ := Option.map_eq_some_iff.mp h
    exact .receiveMessages hcall hp.1 hm
  | internal =>
    simp only [hcall] at h
    obtain ⟨medium, hm, rfl⟩ := Option.map_eq_some_iff.mp h
    exact .internal hcall hm

/-- **What one step does.** -/
theorem step_effect (h : s.step M a = some s') : Effect M s a s' := by
  cases a with
  | sender x =>
    simp only [step] at h
    split_ifs at h with hp hc
    · obtain ⟨o, ho, rfl⟩ := Option.map_eq_some_iff.mp h
      exact .sendReturns hp ho
    · obtain ⟨o, ho, rfl⟩ := Option.map_eq_some_iff.mp h
      exact .sender hp ho
  | receiver x =>
    simp only [step] at h
    split_ifs at h with hp hc
    · obtain ⟨o, ho, rfl⟩ := Option.map_eq_some_iff.mp h
      exact .receiveReturns hp ho
    · obtain ⟨o, ho, rfl⟩ := Option.map_eq_some_iff.mp h
      exact .receiver hp ho
  | sendMessage x n m =>
    obtain ⟨o, ho, rfl⟩ := Option.map_eq_some_iff.mp h
    exact .sendMessage ho
  | caller x n =>
    cases hc : (s.object x).loop.callers n with
    | push m =>
      simp only [step, hc] at h
      obtain ⟨medium, hm, h⟩ := Option.bind_eq_some_iff.mp h
      obtain ⟨o, ho, rfl⟩ := Option.map_eq_some_iff.mp h
      exact .push hc hm ho
    | idle | notify | release =>
      simp only [step, hc] at h
      obtain ⟨o, ho, rfl⟩ := Option.map_eq_some_iff.mp h
      exact .caller (by rw [hc]; rfl) ho
  | destructor x =>
    cases hd : (s.object x).destructor with
    | deleteMedium =>
      simp only [step, hd] at h
      obtain ⟨medium, hm, h⟩ := Option.bind_eq_some_iff.mp h
      obtain ⟨o, ho, rfl⟩ := Option.map_eq_some_iff.mp h
      exact .destroy hd hm ho
    | terminateMQThread | deleteThreads | done =>
      simp only [step, hd] at h
      obtain ⟨o, ho, rfl⟩ := Option.map_eq_some_iff.mp h
      exact .destructor ho
  | medium b => exact effect_medium h

/-! ## The coupling -/

/-- Outside its calls the object `x` holds what the medium has. -/
structure CoupledAt (M : Transport μ σ α) (x : Bool) (o : Lifetime μ) (m : σ)
    (sending receiving : Bool) : Prop where
  sound : o.Sound
  sends : sending = true → o.loop.sender = .sendMessages
  receives : receiving = true → o.receiver.calls = true
  outbox : sending = false → o.loop.outbox = M.outbox m x
  received : o.received <+: M.inbox m x
  received_eq : receiving = false → o.received = M.inbox m x

/-- Both objects hold what the medium has. -/
def Coupled (M : Transport μ σ α) (s : Channel μ σ) : Prop :=
  ∀ x, CoupledAt M x (s.object x) s.medium (s.sending x) (s.receiving x)

/-- A step that concerns one object. -/
theorem Coupled.set (h : s.Coupled M) {o : Lifetime μ} {m : σ} {b c : Bool}
    (ho : ∀ y, y ≠ x → M.outbox m y = M.outbox s.medium y)
    (hi : ∀ y, y ≠ x → M.inbox m y = M.inbox s.medium y) (hx : CoupledAt M x o m b c) :
    (s.set x o m b c).Coupled M := by
  intro y
  by_cases hy : y = x
  · subst hy
    simpa only [Channel.set, Function.update_self] using hx
  · have hy' := h y
    simp only [Channel.set, Function.update_of_ne hy]
    exact ⟨hy'.sound, hy'.sends, hy'.receives, ho y hy ▸ hy'.outbox, hi y hy ▸ hy'.received,
      hi y hy ▸ hy'.received_eq⟩

/-- A step of a thread that is neither of the two loops, and pushes nothing. -/
theorem CoupledAt.other {o o' : Lifetime μ} {m : σ} {b c : Bool} {a : LifetimeAct μ}
    (h : CoupledAt M x o m b c) (hs : o.step a = some o')
    (hr : ∀ messages, a ≠ .receiver messages) (hsend : ∀ outbox, a ≠ .sender outbox)
    (hc : ∀ n, a = .caller n → (o.loop.callers n).pushes = []) : CoupledAt M x o' m b c := by
  obtain ⟨hrec, hreceived⟩ := Lifetime.of_loop hs hr
  obtain ⟨hsender, hout⟩ : (o.loop.sender = .sendMessages → o'.loop.sender = .sendMessages) ∧
      o'.loop.outbox = o.loop.outbox := by
    rcases Lifetime.loop_step hs hr with hl | ⟨b', hb', hl⟩
    · rw [hl]
      exact ⟨id, rfl⟩
    · cases a with
      | sender outbox => exact absurd rfl (hsend outbox)
      | receiver messages => exact absurd rfl (hr messages)
      | caller n =>
        obtain rfl := Option.some.inj hb'
        refine ⟨SendLoop.sender_other hl nofun, ?_⟩
        rw [SendLoop.outbox_caller hl, hc n rfl, List.append_nil]
      | sendMessage | destructor =>
        obtain rfl := Option.some.inj hb'
        exact ⟨SendLoop.sender_other hl nofun, SendLoop.outbox_other hl nofun nofun⟩
  refine ⟨Lifetime.sound_step h.sound hs, fun hb => hsender (h.sends hb), fun hc => ?_, fun hb => ?_,
    ?_, fun hc => ?_⟩
  · rw [hrec]
    exact h.receives hc
  · rw [hout]
    exact h.outbox hb
  · rw [hreceived]
    exact h.received
  · rw [hreceived]
    exact h.received_eq hc

/-- The send loop goes on, outside a call. -/
theorem CoupledAt.sender {o o' : Lifetime μ} {m : σ} {b c : Bool} {outbox : List μ}
    (h : CoupledAt M x o m b c) (hs : o.step (.sender outbox) = some o')
    (ho : o.loop.sender = .sendMessages → outbox = M.outbox m x) : CoupledAt M x o' m false c := by
  obtain ⟨hrec, hreceived⟩ := Lifetime.of_loop hs nofun
  obtain ⟨loop, hl, rfl⟩ := Option.map_eq_some_iff.mp hs
  refine ⟨Lifetime.sound_step h.sound hs, nofun, h.receives, fun _ => ?_, h.received,
    h.received_eq⟩
  rw [SendLoop.outbox_sender hl]
  split_ifs with hp
  · exact ho hp
  · exact h.outbox (Bool.eq_false_iff.mpr fun hb => hp (h.sends hb))

/-- The receive loop goes on, outside a call. -/
theorem CoupledAt.receiver {o o' : Lifetime μ} {m : σ} {b c : Bool} {messages : List μ}
    (h : CoupledAt M x o m b c) (hs : o.step (.receiver messages) = some o')
    (hm : o.receiver.calls = true → o.received ++ messages = M.inbox m x) :
    CoupledAt M x o' m b false := by
  obtain ⟨hout, hsend, -, hreceived⟩ := Lifetime.of_receiver hs
  have heq : o'.received = M.inbox m x := by
    rw [hreceived]
    split_ifs with hp
    · exact hm hp
    · exact h.received_eq (Bool.eq_false_iff.mpr fun hc => hp (h.receives hc))
  exact ⟨Lifetime.sound_step h.sound hs, fun hb => hsend.trans (h.sends hb), nofun,
    fun hb => hout.trans (h.outbox hb), heq ▸ List.prefix_refl _, fun _ => heq⟩

/-- **A step keeps the objects and the medium together.** -/
theorem coupled_step (h : s.Coupled M) (hs : s.step M a = some s') : s'.Coupled M := by
  cases step_effect hs with
  | @sender x o hp ho =>
    have hb : s.sending x = false := Bool.eq_false_iff.mpr fun hb => hp ((h x).sends hb)
    rw [hb]
    exact h.set (fun _ _ => rfl) (fun _ _ => rfl) ((h x).sender ho fun hp' => absurd hp' hp)
  | @sendReturns x o hp ho =>
    exact h.set (fun _ _ => rfl) (fun _ _ => rfl) ((h x).sender ho fun _ => rfl)
  | @receiver x o hp ho =>
    have hc : s.receiving x = false := Bool.eq_false_iff.mpr fun hc => hp ((h x).receives hc)
    rw [hc]
    exact h.set (fun _ _ => rfl) (fun _ _ => rfl) ((h x).receiver ho fun hp' => absurd hp' hp)
  | @receiveReturns x o hp ho =>
    refine h.set (fun _ _ => rfl) (fun _ _ => rfl) ((h x).receiver ho fun _ => ?_)
    obtain ⟨ms, hms⟩ := (h x).received
    rw [← hms, List.drop_left]
  | @sendMessage x n m o ho =>
    exact h.set (fun _ _ => rfl) (fun _ _ => rfl) ((h x).other ho nofun nofun nofun)
  | @destructor x o ho =>
    exact h.set (fun _ _ => rfl) (fun _ _ => rfl) ((h x).other ho nofun nofun nofun)
  | @destroy x o medium hd hm ho =>
    obtain ⟨hout, hinbox⟩ := M.destroy_spec hm
    have hx := (h x).other ho nofun nofun nofun
    exact h.set (fun y _ => by rw [hout]) (fun y _ => by rw [hinbox])
      ⟨hx.sound, hx.sends, hx.receives, hout ▸ hx.outbox, hinbox ▸ hx.received,
        hinbox ▸ hx.received_eq⟩
  | @caller x n o hc ho =>
    refine h.set (fun _ _ => rfl) (fun _ _ => rfl) ((h x).other ho nofun nofun fun k hk => ?_)
    exact LifetimeAct.caller.inj hk ▸ hc
  | @push x n m o medium hc hm ho =>
    obtain ⟨hout, hother, hinbox⟩ := M.push_spec hm
    refine h.set hother (fun y _ => by rw [hinbox]) ?_
    -- the medium gets the message with the outbox
    obtain ⟨loop, hl, rfl⟩ := Option.map_eq_some_iff.mp ho
    have hx := h x
    refine ⟨Lifetime.sound_step hx.sound ho, fun hb => SendLoop.sender_other hl nofun (hx.sends hb),
      hx.receives, fun hb => ?_, hinbox ▸ hx.received, hinbox ▸ hx.received_eq⟩
    rw [SendLoop.outbox_caller hl, hc, hout, hx.outbox hb]
    rfl
  | @sendMessages x _ b medium hcall hp hm =>
    obtain ⟨hother, hinbox⟩ := M.send_spec hcall hm
    have hx := h x
    exact h.set hother (fun y _ => by rw [hinbox])
      ⟨hx.sound, fun _ => hp, hx.receives, nofun, hinbox ▸ hx.received, hinbox ▸ hx.received_eq⟩
  | @receiveMessages x _ b medium hcall hp hm =>
    obtain ⟨hx', hother, hout⟩ := M.receive_spec hcall hm
    have hx := h x
    exact h.set (fun y _ => by rw [hout]) hother
      ⟨hx.sound, hx.sends, fun _ => hp, hout ▸ hx.outbox, hx.received.trans hx', nofun⟩
  | internal hcall hm =>
    obtain ⟨hout, hinbox⟩ := M.internal_spec hcall hm
    intro x
    have hx := h x
    exact ⟨hx.sound, hx.sends, hx.receives, hout ▸ hx.outbox, hinbox ▸ hx.received,
      hinbox ▸ hx.received_eq⟩

/-- What the medium has put into an inbox: dispatched, waiting, or read by a call that has not
returned. -/
theorem Coupled.inbox_eq (h : s.Coupled M) (x : Bool) : ∃ read, (s.receiving x = false → read = []) ∧
    M.inbox s.medium x = (s.object x).dispatched ++ (s.object x).inbox ++ read := by
  obtain ⟨read, hread⟩ := (h x).received
  refine ⟨read, fun hc => ?_, ?_⟩
  · rw [← (h x).received_eq hc] at hread
    exact List.append_cancel_left (hread.trans (List.append_nil _).symm)
  · rw [(h x).sound.received, hread]

variable {m₀ : σ} {as : List (ChannelAct μ α)}

/-- **The objects hold what the medium has**, in every run. -/
theorem coupled_exec (h : exec (step M) (init m₀) as = some s)
    (h₀ : ∀ x, M.outbox m₀ x = [] ∧ M.inbox m₀ x = []) : s.Coupled M := by
  refine exec_invariant (I := Coupled M) (fun _ _ _ => coupled_step) h fun x => ?_
  obtain ⟨hout, hin⟩ := h₀ x
  exact ⟨Lifetime.sound_init, nofun, nofun, fun _ => hout.symm, List.nil_prefix, fun _ => hin.symm⟩

/-! ## The run of the medium -/

/-- What one step does to an object. -/
def ObjectStep (s s' : Channel μ σ) (a : ChannelAct μ α) (x : Bool) : Prop :=
  s'.object x = s.object x ∨ ∃ b, (s.object x).step b = some (s'.object x) ∧
    ∀ n m, b = .sendMessage n m → a = .sendMessage x n m

/-- What one step does to the medium. -/
def MediumStep (M : Transport μ σ α) (s s' : Channel μ σ) : Prop :=
  s'.medium = s.medium ∨ ∃ b, M.step s.medium b = some s'.medium ∧
    (M.call b ≠ .none ∨ (∃ x, b = M.destroy x) ∨
      ∃ x n m, b = M.push x m ∧ (s.object x).loop.callers n = .push m)

theorem objectStep_set {o : Lifetime μ} {m : σ} {b c : Bool} {l : LifetimeAct μ}
    (ho : (s.object x).step l = some o) (hl : ∀ n m, l = .sendMessage n m → a = .sendMessage x n m)
    (y : Bool) : ObjectStep s (s.set x o m b c) a y := by
  by_cases hy : y = x
  · subst hy
    have hset : (s.set y o m b c).object y = o := Function.update_self ..
    exact .inr ⟨l, ho.trans (congrArg some hset.symm), hl⟩
  · exact .inl (Function.update_of_ne hy ..)

theorem objectStep_self {m : σ} {b c : Bool} (y : Bool) :
    ObjectStep s (s.set x (s.object x) m b c) a y :=
  .inl (congrFun (Function.update_eq_self x s.object) y)

/-- **A step is one of the threads and one of the medium**, or one of the two. -/
theorem step_parts (hs : s.step M a = some s') : (∀ x, ObjectStep s s' a x) ∧ MediumStep M s s' := by
  cases step_effect hs with
  | sender hp ho | sendReturns hp ho | receiver hp ho | receiveReturns hp ho | destructor ho
  | caller hc ho => exact ⟨objectStep_set ho nofun, .inl rfl⟩
  | sendMessage ho =>
    refine ⟨objectStep_set ho fun k m' h => ?_, .inl rfl⟩
    cases h
    rfl
  | @push x n m o medium hc hm ho =>
    exact ⟨objectStep_set ho nofun, .inr ⟨_, hm, .inr (.inr ⟨x, n, m, rfl, hc⟩)⟩⟩
  | @destroy x o medium hd hm ho =>
    exact ⟨objectStep_set ho nofun, .inr ⟨_, hm, .inr (.inl ⟨x, rfl⟩)⟩⟩
  | sendMessages hcall hp hm | receiveMessages hcall hp hm =>
    exact ⟨objectStep_self, .inr ⟨_, hm, .inl (by rw [hcall]; nofun)⟩⟩
  | internal hcall hm => exact ⟨fun _ => .inl rfl, .inr ⟨_, hm, .inl (by rw [hcall]; nofun)⟩⟩

/-- **The medium makes a run of its own**, in which callers push only what they have sent. -/
theorem medium_exec {P : μ → Prop} (h : exec (step M) (init m₀) as = some s)
    (hP : ∀ x n m, ChannelAct.sendMessage x n m ∈ as → P m) :
    ∃ bs, exec M.step m₀ bs = some s.medium ∧ ∀ b ∈ bs, M.Admits P b := by
  refine (exec_invariant_along
    (C := fun _ a => ∀ x n m, a = .sendMessage x n m → P m)
    (I := fun s => (∀ x n m, (s.object x).loop.callers n = .push m → P m) ∧
      ∃ bs, exec M.step m₀ bs = some s.medium ∧ ∀ b ∈ bs, M.Admits P b)
    (fun s a s' hI hC hs => ?_) h
    (along_of_forall fun a ha _ x n m h => hP x n m (h ▸ ha)) ⟨nofun, [], rfl, nofun⟩).2
  obtain ⟨hpush, bs, hbs, hadm⟩ := hI
  obtain ⟨hobj, hmed⟩ := step_parts hs
  refine ⟨fun x n m hp => ?_, ?_⟩
  · rcases hobj x with ho | ⟨b, ho, hb⟩
    · exact hpush x n m (ho ▸ hp)
    · rcases Lifetime.callers_step ho hp with hp | hb'
      · exact hpush x n m hp
      · exact hC x n m (hb n m hb')
  · rcases hmed with hm | ⟨b, hm, hb⟩
    · exact ⟨bs, hm ▸ hbs, hadm⟩
    · refine ⟨bs ++ [b], exec_trans hbs (exec_cons_eq_some.mpr ⟨_, hm, rfl⟩), fun c hc => ?_⟩
      rcases List.mem_append.mp hc with hc | hc
      · exact hadm c hc
      · rw [List.mem_singleton.mp hc]
        refine hb.imp_right fun hb => hb.imp_right ?_
        rintro ⟨x, n, m, rfl, hp⟩
        exact ⟨x, m, rfl, hpush x n m hp⟩

end Channel

end Petunia.Threads
