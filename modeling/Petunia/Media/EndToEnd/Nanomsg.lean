import Petunia.Media.Channel
import Petunia.Nanomsg.Stack

set_option autoImplicit false

/-!
# From the callers of one object to the listeners of the other, over nanomsg

The objects have one connection between their sockets. Its sessions may be ended from outside, and
the destructor of an object ends one: `nn_close` stops the endpoint at once, whatever `NN_LINGER`
says, so that frames which have been accepted and not transferred, or have arrived and not been
taken, are lost.

* `SessionAct`, `Stack.sessionStep`: the steps of `Stack`, and what ends a session;
* `nanomsg`: the medium that the objects use;
* `Stack.Sound`, **`Sound.sessionStep`**: the frames of both directions stay paired, whichever
  session ends;
* **`nanomsg_end_to_end`**: the listeners get the first messages pushed, in order, and all of them
  unless a session ends.
-/

namespace Petunia.Nanomsg

open CTypes Ipc Lts Threads

/-! ## What the calls do to the queues -/

section

variable {p p' : Pipe} {b : PipeAct} {s t : Stack} {x : Bool} {a : StackAct}

theorem Pipe.Effect.inbox_prefix (h : p.Effect b p') : p.inbox <+: p'.inbox := by
  cases h with
  | recvData => exact List.prefix_append _ _
  | _ => exact List.prefix_refl _

theorem Pipe.Effect.inbox_eq (h : p.Effect b p') (hb : ∀ eagain, b ≠ .recv eagain) :
    p'.inbox = p.inbox := by
  cases h with
  | recvNothing | recvThrows | recvType | recvNoType | recvData | recvNoData =>
    exact absurd rfl (hb _)
  | sendMessage | sendMessages | sendType | sendData | sendDataThrows | arrive
  | receiveMessages => rfl

theorem Pipe.Effect.outbox_eq (h : p.Effect b p') (hb : ∀ eagain, b ≠ .send eagain) :
    p'.outbox = p.outbox ++ b.pushes := by
  cases h with
  | sendType | sendData | sendDataThrows => exact absurd rfl (hb _)
  | sendMessage => rfl
  | sendMessages | arrive | receiveMessages | recvNothing | recvThrows | recvType | recvNoType
  | recvData | recvNoData => exact (List.append_nil _).symm

namespace Stack

/-- A step of the medium for the direction `x` leaves the other one alone. -/
theorem pipe_call (h : s.call x b = some (some t)) :
    (s.pipe x).Effect b (t.pipe x) ∧ ∀ y, y ≠ x → t.pipe y = s.pipe y := by
  obtain ⟨p, hp, ht⟩ := Option.map_eq_some_iff.mp h
  obtain rfl := Option.some.inj ht
  refine ⟨?_, fun y hy => Function.update_of_ne hy ..⟩
  show (s.pipe x).Effect b (Function.update s.pipe x p x)
  rw [Function.update_self]
  exact Pipe.step_effect hp

theorem pipe_send {eagain : Bool} {n : ℕ} (h : step (some s) (.send x eagain n) = some (some t)) :
    ({ s.pipe x with wire := [] } : Pipe).Effect (.send eagain) (t.pipe x) ∧
      ∀ y, y ≠ x → t.pipe y = s.pipe y := by
  obtain ⟨p, hp, h⟩ := Option.bind_eq_some_iff.mp h
  have ht : t.pipe = Function.update s.pipe x p := by
    split at h
    · split_ifs at h
      obtain ⟨r, -, hr⟩ := Option.map_eq_some_iff.mp h
      obtain ⟨conn, -, rfl⟩ := Option.map_eq_some_iff.mp hr
      rfl
    · cases h
  rw [ht, Function.update_self]
  exact ⟨Pipe.effect_send hp, fun y hy => Function.update_of_ne hy ..⟩

theorem pipe_recv {eagain : Bool} {n : ℕ} (h : step (some s) (.recv x eagain n) = some (some t)) :
    ({ s.pipe x with arrived := (s.conn !x).available } : Pipe).Effect (.recv eagain) (t.pipe x) ∧
      ∀ y, y ≠ x → t.pipe y = s.pipe y := by
  simp only [step] at h
  split_ifs at h with hev hav
  · obtain ⟨p, hp, h⟩ := Option.bind_eq_some_iff.mp h
    obtain rfl := Option.some.inj (Option.some.inj h)
    refine ⟨?_, fun y hy => Function.update_of_ne hy ..⟩
    show Pipe.Effect _ _ (Function.update s.pipe x p x)
    rw [Function.update_self]
    exact Pipe.effect_recv hp
  · obtain ⟨p, hp, h⟩ := Option.bind_eq_some_iff.mp h
    obtain ⟨r, -, hr⟩ := Option.map_eq_some_iff.mp h
    obtain ⟨conn, -, rfl⟩ := Option.map_eq_some_iff.mp hr
    refine ⟨?_, fun y hy => Function.update_of_ne hy ..⟩
    show Pipe.Effect _ _ (Function.update s.pipe x p x)
    rw [Function.update_self]
    exact Pipe.effect_recv hp

theorem pipe_conn {b : ConnAct} (h : step (some s) (.conn b) = some (some t)) :
    t.pipe = s.pipe := by
  simp only [step] at h
  split_ifs at h
  obtain ⟨r, -, hr⟩ := Option.map_eq_some_iff.mp h
  obtain ⟨conn, -, rfl⟩ := Option.map_eq_some_iff.mp hr
  rfl

end Stack

/-! ## The medium -/

/-- A step of the endpoints and of their connection, or what ends the session of an end. -/
inductive SessionAct
  | stack (a : StackAct)
  | fail (x : Bool) (f : Ending)

/-- One step; the result is `none` after a failed assertion. -/
def Stack.sessionStep (s : Stack) : SessionAct → Option (Option Stack)
  | .stack a => step (some s) a
  | .fail x f => (Conn.step (some s.conn) (.fail x f)).map fun r => r.map fun conn => { s with conn }

/-- The end of a session leaves the queues of the medium alone. -/
theorem Stack.pipe_fail {f : Ending} (h : s.sessionStep (.fail x f) = some (some t)) :
    t.pipe = s.pipe := by
  obtain ⟨r, -, hr⟩ := Option.map_eq_some_iff.mp h
  obtain ⟨conn, -, rfl⟩ := Option.map_eq_some_iff.mp hr
  rfl

/-- The nanomsg medium between two objects. -/
def nanomsg : Transport Message Stack SessionAct where
  step s a := (s.sessionStep a).join
  push x m := .stack (.sendMessage x m)
  destroy x := .fail x .close
  call
    | .stack (.sendMessage _ _) => .none
    | .stack (.sendMessages x) => .sendMessages x true
    | .stack (.send x _ _) => .sendMessages x false
    | .stack (.receiveMessages x) => .receiveMessages (!x) true
    | .stack (.recv x _ _) => .receiveMessages (!x) false
    | .stack (.conn _) | .fail _ .timeout | .fail _ .error => .internal
    | .fail _ .close => .none
  outbox s x := (s.pipe x).outbox
  inbox s x := (s.pipe !x).inbox
  sendReturns s x := (s.pipe x).send = .idle
  receiveReturns s x := (s.pipe !x).receive = .idle
  push_spec := by
    intro s t x m h
    obtain ⟨hx, hy⟩ := Stack.pipe_call (Option.join_eq_some_iff.mp h)
    exact ⟨hx.outbox_eq nofun, fun y hne => by rw [hy y hne],
      funext fun z => congr_of_step (f := Pipe.inbox) (hx.inbox_eq nofun) hy _⟩
  destroy_spec := by
    intro s t x h
    have hpipe := Stack.pipe_fail (Option.join_eq_some_iff.mp h)
    exact ⟨funext fun z => by rw [hpipe], funext fun z => by rw [hpipe]⟩
  send_spec := by
    intro s t a x b hc h
    have h := Option.join_eq_some_iff.mp h
    cases a with
    | fail y f => cases f <;> cases hc
    | stack a =>
      cases a with
      | sendMessages y =>
        cases hc
        obtain ⟨hx, hy⟩ := Stack.pipe_call h
        exact ⟨fun y hne => by rw [hy y hne],
          funext fun z => congr_of_step (f := Pipe.inbox) (hx.inbox_eq nofun) hy _⟩
      | send y eagain n =>
        cases hc
        obtain ⟨hx, hy⟩ := Stack.pipe_send h
        exact ⟨fun y hne => by rw [hy y hne],
          funext fun z => congr_of_step (f := Pipe.inbox) (hx.inbox_eq nofun) hy _⟩
      | sendMessage | receiveMessages | recv | conn => cases hc
  receive_spec := by
    intro s t a x b hc h
    have h := Option.join_eq_some_iff.mp h
    have hother : ∀ y z : Bool, z ≠ !y → (!z) ≠ y := fun y z hz h => hz (h ▸ (Bool.not_not z).symm)
    cases a with
    | fail y f => cases f <;> cases hc
    | stack a =>
      cases a with
      | receiveMessages y =>
        cases hc
        obtain ⟨hx, hy⟩ := Stack.pipe_call h
        have hout := (hx.outbox_eq nofun).trans (List.append_nil _)
        refine ⟨?_, fun z hz => by rw [hy _ (hother y z hz)],
          funext fun z => congr_of_step (f := Pipe.outbox) hout hy z⟩
        rw [Bool.not_not]
        exact hx.inbox_prefix
      | recv y eagain n =>
        cases hc
        obtain ⟨hx, hy⟩ := Stack.pipe_recv h
        have hout := (hx.outbox_eq nofun).trans (List.append_nil _)
        refine ⟨?_, fun z hz => by rw [hy _ (hother y z hz)],
          funext fun z => congr_of_step (f := Pipe.outbox) hout hy z⟩
        rw [Bool.not_not]
        exact hx.inbox_prefix
      | sendMessage | sendMessages | send | conn => cases hc
  internal_spec := by
    intro s t a hc h
    have h := Option.join_eq_some_iff.mp h
    cases a with
    | fail y f =>
      have hpipe := Stack.pipe_fail h
      exact ⟨funext fun z => by rw [hpipe], funext fun z => by rw [hpipe]⟩
    | stack a =>
      cases a with
      | conn b =>
        have hpipe := Stack.pipe_conn h
        exact ⟨funext fun z => by rw [hpipe], funext fun z => by rw [hpipe]⟩
      | sendMessage | sendMessages | send | receiveMessages | recv => cases hc

/-! ## Every run of the medium -/

/-- The two ends are linked, and the frames of each direction are those of its messages. -/
structure Stack.Sound (s : Stack) : Prop where
  linked : ∀ x, Linked (s.conn x) (s.conn !x)
  streams : ∀ x, (∀ m ∈ (s.pipe x).pushed, Transmissible m) → (s.abs x).Streams

namespace Stack

/-- The end of a session puts the frame that was available back among those on their way, where it
stays. -/
theorem pending_of_fail {c c' : Conn} {pipe : Bool → Pipe} {y : Bool} {f : Ending}
    (hc : ∀ x, Linked (c x) (c !x)) (hm : c.Moves c' (.fail y f)) (x : Bool) :
    (abs ⟨c', pipe⟩ x).pending = (abs ⟨c, pipe⟩ x).pending := by
  have hkeeps : ∀ z, (c' z).sent = (c z).sent ∧ (c' z).taken = (c z).taken := by
    intro z
    cases hm with
    | ignored y f hc' => exact hc' ▸ ⟨rfl, rfl⟩
    | close y f hev hx hy =>
      by_cases hzy : z = y
      · subst hzy
        rw [hx]
        exact ⟨rfl, rfl⟩
      · obtain rfl := Bool.eq_not.mpr hzy
        rw [hy]
        exact ⟨rfl, rfl⟩
  have hframes : (c' !x).available ++ onWire c' x = (c !x).available ++ onWire c x := by
    rw [available_append_onWire hc, available_append_onWire (hm.linked hc), (hkeeps x).1,
      (hkeeps !x).2]
  simp only [Pipe.pending, abs, List.append_assoc]
  rw [← List.append_assoc (End.available _), hframes, List.append_assoc]

/-- **A step keeps the frames paired**, and fails no assertion. -/
theorem Sound.sessionStep {a : SessionAct} {r : Option Stack} (hs : s.Sound)
    (h : s.sessionStep a = some r) : ∃ t, r = some t ∧ t.Sound := by
  cases a with
  | stack a =>
    obtain ⟨t, rfl, hc, hr⟩ := refines_step hs.linked h
    refine ⟨t, rfl, hc, fun x => ?_⟩
    obtain ⟨ps, hps⟩ := hr x
    exact Pipe.streams_exec hps (hs.streams x)
  | fail y f =>
    obtain ⟨o, ho, rfl⟩ := Option.map_eq_some_iff.mp h
    obtain ⟨c', rfl, hm⟩ := Conn.step_moves hs.linked ho
    refine ⟨_, rfl, hm.linked hs.linked, fun x ht => ?_⟩
    have hstreams := hs.streams x ht
    exact hstreams.of_pending rfl (fun _ hx => hx) hstreams.sending (pending_of_fail hs.linked hm x)
      rfl rfl rfl

end Stack

/-- The headers are exchanged, a caller sends a message, its two frames cross, it reaches the
listeners of the other object, and the object that has sent it is destructed. -/
def delivery : List (ChannelAct Message SessionAct) :=
  Conn.exchange.map (fun a => .medium (.stack (.conn a))) ++
    [.sendMessage false 1 (.new [97] [42]), .caller false 1, .caller false 1, .caller false 1,
      .sender false, .sender false, .sender false, .sender false, .receiver true] ++
    (Stack.received.drop 15).map (fun a => .medium (.stack a)) ++
    [.sender false, .receiver true, .receiver true, .destructor false, .destructor false,
      .receiver false, .sender false, .sender false, .destructor false, .destructor false,
      .destructor false, .destructor false, .destructor false]

end

end Petunia.Nanomsg
