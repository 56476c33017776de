import Petunia.Nanomsg.Endpoints

set_option autoImplicit false

/-!
# When two endpoints can deadlock

The wait cycle runs through both endpoints: each send thread waits for the peer's receive thread to
make room, and each receive thread waits, inside a listener, for the lock of its own send thread.

* `step_of_deadlocked`: no thread leaves the cycle;
* `exists_full`: a send thread fills the buffer while the peer does not receive;
* **`reaches_deadlock`**: if the listeners of both endpoints send, the cycle is reached;
* **`deadlock_free_iff`**: no reachable state is deadlocked if and only if the listeners of one of
  the endpoints never send; `deadlock_one_frame` is a run that reaches it.
-/

namespace Petunia.Nanomsg

open Lts

variable {κ μ : Type*} {cap : ℕ} {replies : Side → κ → μ → List μ}

theorem Side.peer_ne (x : Side) : x.peer ≠ x := by
  cases x <;> simp [peer]

@[simp] theorem Side.peer_peer (x : Side) : x.peer.peer = x := by
  cases x <;> rfl

/-- In the cycle no thread and no user can take a step. -/
theorem step_of_deadlocked {s : State μ} (hs : Deadlocked cap s) (a : Act κ μ) :
    step cap replies s a = none := by
  cases a with
  | sendMessage x m =>
    obtain ⟨hl, -, -, -⟩ := hs x
    simp [step, Endpoint.sendMessage, hl]
  | send x =>
    obtain ⟨-, hp, hfull, -⟩ := hs x
    have hroom : ¬ (s x).buffer.length < cap := by omega
    cases ho : (s x).outbox with
    | nil => rcases hp with hp | hp <;> simp [step, Endpoint.sendStep, hp, ho]
    | cons m rest => rcases hp with hp | hp <;> simp [step, Endpoint.sendStep, hp, ho, hroom]
  | receive x captured =>
    obtain ⟨hl, -, -, m, rest, hr⟩ := hs x
    simp [step, Endpoint.receiveStep, hr, Endpoint.sendMessage, hl]

/-! ## Reaching the cycle -/

/-- The frames that a send thread in `SendMessages` has still to send. -/
def Endpoint.framesLeft (e : Endpoint μ) : ℕ :=
  2 * e.outbox.length - if e.send = .sendData then 1 else 0

/-- A send thread in `SendMessages`. -/
def Endpoint.Sending (e : Endpoint μ) : Prop :=
  e.locked = true ∧ (e.send = .sendType ∨ e.send = .sendData)

/-- A send with room. -/
theorem Endpoint.sendStep_of_room {e : Endpoint μ} (hs : e.Sending) (hroom : e.buffer.length < cap)
    (hleft : 1 < e.framesLeft) : ∃ e', e.sendStep cap = some e' ∧ e'.Sending ∧
      e'.buffer.length = e.buffer.length + 1 ∧ e'.framesLeft + 1 = e.framesLeft ∧
      e'.receive = e.receive := by
  obtain ⟨hl, hp | hp⟩ := hs
  · cases ho : e.outbox with
    | nil => simp [framesLeft, ho] at hleft
    | cons m rest =>
      refine ⟨{ e with buffer := e.buffer ++ [.type m], send := .sendData }, ?_, ⟨hl, .inr rfl⟩, ?_,
        ?_, rfl⟩
      · simp [sendStep, hp, ho, hroom]
      · simp
      · simp only [framesLeft, hp, ho, List.length_cons, if_true]
        simp
        omega
  · cases ho : e.outbox with
    | nil => simp [framesLeft, ho] at hleft
    | cons m rest =>
      have hne : rest ≠ [] := by
        rintro rfl
        simp [framesLeft, hp, ho] at hleft
      refine ⟨{ e with outbox := rest, send := .sendType, buffer := e.buffer ++ [.data m] }, ?_,
        ⟨hl, .inl rfl⟩, ?_, ?_, rfl⟩
      · simp [sendStep, hp, ho, hroom, hne]
      · simp
      · simp only [framesLeft, hp, ho, List.length_cons, if_true]
        simp
        omega

variable (cap replies)

/-- **A send thread fills its buffer** while nobody receives. -/
theorem exists_full (n : ℕ) : ∀ (s : State μ) (x : Side), (s x).Sending →
    (s x).buffer.length + n = cap → n < (s x).framesLeft →
    ∃ s', Reaches (step cap replies) s s' ∧ (s' x).Sending ∧ cap ≤ (s' x).buffer.length ∧
      (s' x).receive = (s x).receive ∧ s' x.peer = s x.peer := by
  induction n with
  | zero =>
    intro s x hs hn _
    exact ⟨s, .refl s, hs, by omega, rfl, rfl⟩
  | succ n ih =>
    intro s x hs hn hleft
    obtain ⟨e', he', hs', hlen, hleft', hrec⟩ :=
      Endpoint.sendStep_of_room hs (by omega : (s x).buffer.length < cap) (by omega)
    have h1 : step cap replies s (.send x) = some (Function.update s x e') := by
      simp only [step, he', Option.map_some]
    obtain ⟨s', h2, hsend, hfull, hrec', hpeer⟩ := ih (Function.update s x e') x
      (by simpa using hs') (by simp; omega) (by simp; omega)
    refine ⟨s', (Reaches.single h1).trans h2, hsend, hfull, ?_, ?_⟩
    · rw [hrec', Function.update_self, hrec]
    · rw [hpeer, Function.update_of_ne x.peer_ne]

/-- A user pushes messages. -/
theorem exists_pushed (m : μ) (k : ℕ) : ∀ (s : State μ) (x : Side), (s x).locked = false →
    (s x).send = .acquire → Reaches (step cap replies) s
      (Function.update s x { s x with outbox := (s x).outbox ++ List.replicate k m }) := by
  induction k with
  | zero =>
    intro s x hl hp
    simpa using Reaches.refl s
  | succ k ih =>
    intro s x hl hp
    have h1 : step cap replies s (.sendMessage x m) =
        some (Function.update s x { s x with outbox := (s x).outbox ++ [m] }) := by
      simp [step, Endpoint.sendMessage, hl, hp]
    have h := (Reaches.single h1).trans (ih _ x (by simpa using hl) (by simpa using hp))
    simpa [List.replicate_succ] using h

/-- A user's messages make a send thread wait for room, whatever the other threads do next. -/
theorem exists_sending (m : μ) {s : State μ} {x : Side} (hl : (s x).locked = false)
    (hp : (s x).send = .acquire) (hb : (s x).buffer = []) :
    ∃ s', Reaches (step cap replies) s s' ∧ (s' x).Sending ∧ cap ≤ (s' x).buffer.length ∧
      (s' x).receive = (s x).receive ∧ s' x.peer = s x.peer := by
  have h1 := exists_pushed cap replies m (cap + 1) s x hl hp
  have ho : (s x).outbox ++ List.replicate (cap + 1) m ≠ [] := by simp
  obtain ⟨m', rest, ho⟩ := List.exists_cons_of_ne_nil ho
  rw [ho] at h1
  have hlen : cap + 1 ≤ (m' :: rest).length := by rw [← ho]; simp
  have h2 : step cap replies (Function.update s x { s x with outbox := m' :: rest }) (.send x) =
      some (Function.update s x
        { s x with outbox := m' :: rest, locked := true, send := .sendType }) := by
    simp [step, Endpoint.sendStep, hl, hp]
  obtain ⟨s', h3, hsend, hfull, hrec, hpeer⟩ := exists_full cap replies cap
    (Function.update s x { s x with outbox := m' :: rest, locked := true, send := .sendType }) x
    (by rw [Function.update_self]; exact ⟨rfl, .inl rfl⟩) (by simp [hb]) (by
      rw [Function.update_self, Endpoint.framesLeft]
      simp only [reduceCtorEq, if_false]
      omega)
  refine ⟨s', (h1.trans (.single h2)).trans h3, hsend, hfull, ?_, ?_⟩
  · rw [hrec, Function.update_self]
  · rw [hpeer, Function.update_of_ne x.peer_ne]

/-- A message of one user puts the receive thread of the peer into its listeners. -/
theorem reaches_listener (hcap : 0 < cap) {s : State μ} {x : Side} (k : κ) (m : μ)
    {r : ReceiveThread μ} (hx : s x = { Endpoint.init with receive := r })
    (hy : s x.peer = Endpoint.init) : Reaches (step cap replies) s (Function.update s x.peer
      { Endpoint.init with receive := .listener (replies x.peer k m) }) := by
  refine ⟨[.sendMessage x m, .send x, .send x, .receive x.peer k, .send x, .receive x.peer k,
    .receive x.peer k, .receive x.peer k], ?_⟩
  simp [exec_cons, step, Endpoint.init, Endpoint.sendMessage, Endpoint.sendStep,
    Endpoint.receiveStep, hcap, hx, hy, x.peer_ne, x.peer_ne.symm]
  funext y
  by_cases hp : y = x.peer
  · subst hp
    simp
  · by_cases hyx : y = x
    · subst hyx
      simp [hx, hp, Endpoint.init]
    · simp [hp, hyx]

/-- Both receive threads can be inside a listener while nothing is on the way. -/
theorem reaches_listening (hcap : 0 < cap) (k : Side → κ) (m : Side → μ) :
    Reaches (step cap replies) init
      fun x => { Endpoint.init with receive := .listener (replies x (k x) (m x)) } := by
  have h1 := reaches_listener cap replies hcap (x := .left) (k .right) (m .right)
    (s := init) rfl rfl
  have h2 := reaches_listener cap replies hcap (x := .right) (k .left) (m .left)
    (s := Function.update init .right
      { Endpoint.init with receive := .listener (replies .right (k .right) (m .right)) }) rfl rfl
  convert h1.trans h2 using 1
  funext x
  cases x <;> rfl

variable {cap replies}

/-- **The cycle is reached** if the listeners of both endpoints send. -/
theorem reaches_deadlock (hcap : 0 < cap) (h : ∀ x, ∃ k m, replies x k m ≠ []) :
    ∃ s, Reaches (step cap replies) init s ∧ Deadlocked cap s := by
  choose k m hm using h
  -- the receive threads enter their listeners, then the send threads fill the buffers
  have h0 := reaches_listening cap replies hcap k m
  obtain ⟨s₁, h1, hs₁, hfull₁, hrec₁, hpeer₁⟩ := exists_sending cap replies (m .left)
    (s := fun x => { Endpoint.init with receive := .listener (replies x (k x) (m x)) }) (x := .left)
    rfl rfl rfl
  simp only [Side.peer] at hpeer₁
  obtain ⟨s₂, h2, hs₂, hfull₂, hrec₂, hpeer₂⟩ := exists_sending cap replies (m .left) (s := s₁)
    (x := .right) (by rw [hpeer₁]; rfl) (by rw [hpeer₁]; rfl) (by rw [hpeer₁]; rfl)
  simp only [Side.peer] at hpeer₂
  refine ⟨s₂, (h0.trans h1).trans h2, fun x => ?_⟩
  obtain ⟨a, rest, hrep⟩ := List.exists_cons_of_ne_nil (hm x)
  cases x with
  | left =>
    rw [hpeer₂]
    exact ⟨hs₁.1, hs₁.2, hfull₁, a, rest, by rw [hrec₁, ← hrep]⟩
  | right => exact ⟨hs₂.1, hs₂.2, hfull₂, a, rest, by rw [hrec₂, hpeer₁, ← hrep]⟩

/-- The receive thread has nothing to send from inside a listener. -/
def Endpoint.Quiet (e : Endpoint μ) : Prop := ∀ rest, e.receive = .listener rest → rest = []

theorem Endpoint.receive_sendMessage {e e' : Endpoint μ} {m : μ} (h : e.sendMessage m = some e') :
    e'.receive = e.receive := by
  unfold sendMessage at h
  split_ifs at h <;> cases h <;> rfl

theorem Endpoint.receive_sendStep {e e' : Endpoint μ} (h : e.sendStep cap = some e') :
    e'.receive = e.receive := by
  unfold sendStep at h
  split at h
  · split_ifs at h; cases h; rfl
  · split_ifs at h; cases h; rfl
  · split_ifs at h; cases h; rfl
  · split_ifs at h <;> cases h <;> rfl
  · cases h

/-- Listeners that never send leave nothing to send. -/
theorem Endpoint.quiet_receiveStep {reply : μ → List μ} (hx : ∀ m, reply m = []) {e e' : Endpoint μ}
    {b b' : List (Part μ)} (he : e.Quiet) (h : e.receiveStep reply b = some (e', b')) :
    e'.Quiet := by
  intro rest hr
  unfold receiveStep at h
  split at h
  · cases h
    simp only at hr
    split_ifs at hr
  · cases h; cases hr
  · cases h; cases hr
  · split at h
    · cases h; cases hr
    · next m inbox _ =>
      cases h
      cases hr
      exact hx m
  · cases h; cases hr
  · next m rest' hp => exact absurd (he _ hp) (by simp)
  · cases h

theorem quiet_step {x : Side} (hx : ∀ k m, replies x k m = []) {s s' : State μ} {a : Act κ μ}
    (hs : (s x).Quiet) (h : step cap replies s a = some s') : (s' x).Quiet := by
  cases a with
  | sendMessage y m =>
    obtain ⟨e, he, rfl⟩ := Option.map_eq_some_iff.mp h
    by_cases hy : x = y
    · subst hy
      rw [Function.update_self, Endpoint.Quiet, Endpoint.receive_sendMessage he]
      exact hs
    · rwa [Function.update_of_ne hy]
  | send y =>
    obtain ⟨e, he, rfl⟩ := Option.map_eq_some_iff.mp h
    by_cases hy : x = y
    · subst hy
      rw [Function.update_self, Endpoint.Quiet, Endpoint.receive_sendStep he]
      exact hs
    · rwa [Function.update_of_ne hy]
  | receive y captured =>
    obtain ⟨⟨e, b⟩, he, rfl⟩ := Option.map_eq_some_iff.mp h
    by_cases hy : x = y
    · subst hy
      rw [Function.update_self]
      exact Endpoint.quiet_receiveStep (hx captured) hs he
    · rw [Function.update_of_ne hy]
      by_cases hp : x = y.peer
      · -- the peer's receive thread takes a frame from the buffer
        subst hp
        rw [Function.update_self]
        exact hs
      · rwa [Function.update_of_ne hp]

/-- **When the endpoints cannot deadlock.** For every capacity of the buffers: no reachable state
has both send threads blocked in the transport and both receive threads blocked in a listener, if
and only if the listeners of one of the endpoints never send. -/
theorem deadlock_free_iff (hcap : 0 < cap) :
    (∀ as s, exec (step cap replies) init as = some s → ¬ Deadlocked cap s) ↔
      ∃ x, ∀ k m, replies x k m = [] := by
  constructor
  · intro h
    by_contra hn
    push Not at hn
    obtain ⟨s, ⟨as, hs⟩, hd⟩ := reaches_deadlock hcap hn
    exact h as s hs hd
  · rintro ⟨x, hx⟩ as s hs hd
    have hquiet : (s x).Quiet := exec_invariant (I := fun s : State μ => (s x).Quiet)
      (fun _ _ _ => quiet_step hx) hs fun rest hr => by cases hr
    obtain ⟨-, -, -, m, rest, hr⟩ := hd x
    exact absurd (hquiet _ hr) (by simp)

/-- Buffers of one frame, and listeners that never send on the left. -/
theorem deadlock_free_iff_one :
    0 < 1 ∧ ∀ as s, exec (step 1 fun x (k m : ℕ) => if x = .left then [] else [k + m]) init as =
      some s → ¬ Deadlocked 1 s :=
  ⟨Nat.one_pos, (deadlock_free_iff Nat.one_pos).mpr ⟨.left, fun _ _ => rfl⟩⟩

/-- **A deadlock** of endpoints whose listeners answer every message, with buffers of one frame. -/
theorem deadlock_one_frame :
    ∃ s : State ℕ, exec (step 1 fun _ () m => [m]) init
        [.sendMessage .left 0, .send .left, .send .left, .receive .right (), .send .left,
          .receive .right (), .receive .right (), .receive .right (), .sendMessage .right 0,
          .send .right, .send .right, .receive .left (), .send .right, .receive .left (),
          .receive .left (), .receive .left (), .sendMessage .left 1, .send .left, .send .left,
          .sendMessage .right 1, .send .right, .send .right] = some s ∧ Deadlocked 1 s := by
  refine ⟨_, rfl, fun x => ?_⟩
  cases x with
  | left => exact ⟨rfl, .inr rfl, Nat.le_refl 1, 0, [], rfl⟩
  | right => exact ⟨rfl, .inr rfl, Nat.le_refl 1, 0, [], rfl⟩

end Petunia.Nanomsg
