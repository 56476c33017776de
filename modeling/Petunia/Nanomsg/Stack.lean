import Petunia.Ipc.Connection
import Petunia.Nanomsg.Stream

set_option autoImplicit false

/-!
# The nanomsg medium over an IPC connection

Two endpoints whose sockets are the ends of one connection, as long as nothing from outside ends its
sessions. `nn_send` and `nn_recv` are its steps `send` and `recv`; everything below them, the events
of the two sockets, the partial reads and writes and the exchange of headers, goes on in between.

* `Stack`, `Stack.step`: both directions of the medium, down to the bytes;
* `Stack.abs`: what the medium sees of a direction, frames on their way and frames that have arrived;
* `Sees`, **`sees_of_moves`**: what the medium notices of a step of the sockets;
* `Refines`, **`refines_step`**: every step is a step of the frames or invisible to the medium;
* **`stack_refines`**: a run over the connection is a run of `Pipe` in both directions;
* **`stack_decodes`**: messages are decoded over the connection as they are over `Pipe`.
-/

namespace Petunia.Nanomsg

open CTypes Lts Ipc

/-- A connection and the endpoints on it; `pipe x` has what the medium keeps for the direction from
`x`, without the frames of the socket. -/
structure Stack where
  conn : Conn
  pipe : Bool → Pipe

/-- A step of the medium for the direction from `x`, or of the connection below. -/
inductive StackAct
  | sendMessage (x : Bool) (message : Message)
  | sendMessages (x : Bool)
  | receiveMessages (x : Bool)
  | send (x : Bool) (eagain : Bool) (n : ℕ)
  | recv (x : Bool) (eagain : Bool) (n : ℕ)
  | conn (act : ConnAct)

/-- The steps that are not calls of the medium and end no session. -/
def internal : ConnAct → Bool
  | .act _ (.send _ _ _ _) | .act _ (.recv _) | .fail _ _ => false
  | _ => true

namespace Stack

/-- A step that the socket has no part in. -/
def call (s : Stack) (x : Bool) (a : PipeAct) : Option (Option Stack) :=
  ((s.pipe x).step a).map fun p => some { s with pipe := Function.update s.pipe x p }

/-- One step; the state is `none` after a failed assertion. -/
def step : Option Stack → StackAct → Option (Option Stack)
  | none, _ => none
  | some s, .sendMessage x m => s.call x (.sendMessage m)
  | some s, .sendMessages x => s.call x .sendMessages
  | some s, .receiveMessages x => s.call x .receiveMessages
  | some s, .send x eagain n =>
    (Pipe.sendStep { s.pipe x with wire := [] } eagain).bind fun p =>
      match p.wire with
      | [frame] =>
        -- no buffer is larger than the address space
        if h : ([] ++ frame).length < 2 ^ 64 then
          (Conn.step (some s.conn) (.act x (.send [] frame h n))).map fun r => r.map fun conn =>
            { conn, pipe := Function.update s.pipe x p }
        else none
      | _ => none
  | some s, .recv x eagain n =>
    if (s.conn !x).events = [] then
      (Pipe.recvStep { s.pipe x with arrived := (s.conn !x).available } eagain).bind fun p =>
        if (s.conn !x).available = [] then
          -- `nn_recv` fails with `EAGAIN`
          some (some { s with pipe := Function.update s.pipe x p })
        else
          (Conn.step (some s.conn) (.act (!x) (.recv n))).map fun r => r.map fun conn =>
            { conn, pipe := Function.update s.pipe x p }
    else none
  | some s, .conn a =>
    if internal a then (Conn.step (some s.conn) a).map fun r => r.map fun conn => { s with conn }
    else none

/-- Two `NN_PAIR` sockets without a limit on messages, as `IPCMediumNanomsg` opens them. -/
def init : Stack := ⟨Conn.init (fun _ => xpair) fun _ => -1, fun _ => Pipe.init⟩

/-- The frames of a direction that have been sent and are not available yet. -/
def onWire (c : Conn) (x : Bool) : List Frame :=
  ((c x).sent.map Payload.bytes).drop ((c !x).taken ++ (c !x).available).length

/-- What the medium sees of the direction from `x`. -/
def abs (s : Stack) (x : Bool) : Pipe :=
  { s.pipe x with wire := onWire s.conn x, arrived := (s.conn !x).available }

end Stack

/-! ## The frames of the socket in a step of the medium -/

namespace Pipe

variable {s p : Pipe} {eagain : Bool} {frame : Frame}

/-- `nn_send` appends its frame to those on their way. -/
theorem sendStep_wire (h : sendStep { s with wire := [] } eagain = some p) (hw : p.wire = [frame])
    (wire arrived : List Frame) : sendStep { s with wire, arrived } eagain =
      some { p with wire := wire ++ [frame], arrived } := by
  obtain ⟨outbox, pc, _, _, _, _, _, _⟩ := s
  cases outbox with
  | nil => cases pc <;> cases h
  | cons m outbox =>
    cases pc with
    | idle => cases h
    | sendType =>
      obtain rfl := (Option.some.inj h).symm
      obtain rfl := (List.cons.inj hw).1
      rfl
    | sendData =>
      simp only [sendStep] at h ⊢
      split_ifs at h ⊢
      all_goals
        obtain rfl := (Option.some.inj h).symm
        obtain rfl := (List.cons.inj hw).1
        rfl

/-- `nn_recv` takes the first frame that has arrived. -/
theorem recvStep_wire {arrived : List Frame}
    (h : recvStep { s with arrived } eagain = some p) (wire : List Frame) :
    p.arrived = arrived.tail ∧ recvStep { s with wire, arrived } eagain = some { p with wire } := by
  obtain ⟨_, _, _, _, pc, _, _, _⟩ := s
  cases pc with
  | idle => cases h
  | recvType call =>
    cases arrived with
    | nil =>
      obtain rfl := (Option.some.inj h).symm
      exact ⟨rfl, rfl⟩
    | cons frame arrived =>
      simp only [recvStep] at h ⊢
      cases hr : frame.result eagain with
      | none =>
        simp only [hr] at h ⊢
        obtain rfl := (Option.some.inj h).symm
        exact ⟨rfl, rfl⟩
      | some rc =>
        simp only [hr] at h ⊢
        split_ifs at h ⊢
        all_goals
          obtain rfl := (Option.some.inj h).symm
          exact ⟨rfl, rfl⟩
  | recvData messageType call =>
    cases arrived with
    | nil => cases h
    | cons frame arrived =>
      simp only [recvStep] at h ⊢
      cases hr : frame.result eagain with
      | none =>
        simp only [hr] at h ⊢
        obtain rfl := (Option.some.inj h).symm
        exact ⟨rfl, rfl⟩
      | some rc =>
        simp only [hr] at h ⊢
        split_ifs at h ⊢
        all_goals
          obtain rfl := (Option.some.inj h).symm
          exact ⟨rfl, rfl⟩

/-- The steps between calls of the socket have no frames. -/
theorem step_frames {a : PipeAct}
    (ha : a = .sendMessages ∨ a = .receiveMessages ∨ ∃ m, a = .sendMessage m)
    (h : step s a = some p) (wire arrived : List Frame) :
    step { s with wire, arrived } a = some { p with wire, arrived } := by
  by_cases hidle : match a with
    | .receiveMessages => s.receive = .idle
    | _ => s.send = .idle
  · rcases ha with rfl | rfl | ⟨m, rfl⟩
    all_goals
      simp only [step] at h ⊢
      rw [if_pos hidle] at h ⊢
      obtain rfl := (Option.some.inj h).symm
      rfl
  · rcases ha with rfl | rfl | ⟨m, rfl⟩
    all_goals
      simp only [step] at h
      rw [if_neg hidle] at h
      cases h

end Pipe

/-! ## The frames of the socket in a step of the connection -/

namespace Stack

variable {c c' : Conn} {act : ConnAct}

theorem onWire_eq {x : Bool} {rest : List Frame}
    (h : (c x).sent.map Payload.bytes = (c !x).taken ++ (c !x).available ++ rest) :
    onWire c x = rest := by
  rw [onWire, h, List.drop_left]

/-- What has been handed out or is available are the first frames that were sent. -/
theorem onWire_spec (hc : ∀ x, Linked (c x) (c !x)) (x : Bool) :
    (c x).sent.map Payload.bytes = (c !x).taken ++ (c !x).available ++ onWire c x := by
  obtain ⟨rest, h⟩ : (c !x).taken ++ (c !x).available <+: (c x).sent.map Payload.bytes := by
    have hd := (hc x).delivers
    cases hi : (c !x).inpipe with
    | false =>
      obtain ⟨ps, rest, hsent, ht⟩ := hd.parsed.taken
      exact ⟨rest.map Payload.bytes, by
        rw [End.available_of_inpipe hi, hsent, ht, List.append_nil, List.map_append]⟩
    | true =>
      obtain ⟨hs, -, hcm⟩ := (hc x).receiver.of_inpipe hi
      have hw := (hc x).receiver.inp.want_of_hasmsg hs hcm
      obtain ⟨ps, p, rest, hsent, ht, hb, -⟩ := hd.body_read hs (.inr hcm) hw
      exact ⟨rest.map Payload.bytes, by rw [End.available, hi, hb, hsent, ht]; simp⟩
  rw [onWire_eq h.symm, h]

/-- The frames that have been sent and not handed out. -/
theorem available_append_onWire (hc : ∀ x, Linked (c x) (c !x)) (x : Bool) :
    (c !x).available ++ onWire c x = ((c x).sent.map Payload.bytes).drop (c !x).taken.length := by
  rw [onWire_spec hc x, List.append_assoc, List.drop_left]

/-- A step changes nothing that the medium sees of a direction, or a frame arrives. -/
def Sees (c c' : Conn) (x : Bool) : Prop :=
  (onWire c' x = onWire c x ∧ (c' !x).available = (c !x).available) ∨
    ∃ frame, onWire c x = frame :: onWire c' x ∧ (c !x).available = [] ∧
      (c' !x).available = [frame]

theorem sees_of_eq {x : Bool} (hs : (c' x).sent = (c x).sent) (ht : (c' !x).taken = (c !x).taken)
    (ha : (c' !x).available = (c !x).available) : Sees c c' x :=
  .inl ⟨by rw [onWire, onWire, hs, ht, ha], ha⟩

/-- **A step of the connection below the medium** is invisible, or a frame arrives. -/
theorem sees_of_moves (hc : ∀ x, Linked (c x) (c !x)) (hm : c.Moves c' act)
    (ha : internal act = true) (y : Bool) : Sees c c' y := by
  cases hm with
  | @act x a hx hy =>
    have hr : ∀ n, a ≠ .recv n := by rintro n rfl; cases ha
    have hs : ∀ sphdr body hlt n, a ≠ .send sphdr body hlt n := by
      rintro sphdr body hlt n rfl
      cases ha
    have hsent := hx.sent_eq hs
    obtain ⟨ht, hav⟩ := hx.available_eq (hc x).sender hr
    by_cases hyx : y = x
    · subst hyx
      exact sees_of_eq hsent (by rw [hy]) (by rw [hy])
    · obtain rfl := Bool.eq_not.mpr (Ne.symm hyx)
      rw [Bool.not_not] at hy
      rcases hav with hav | ⟨hnil, hone, hs', hc', hw⟩
      · exact sees_of_eq (by rw [hy]) ht hav
      · -- the frame is the first one on its way
        obtain ⟨ps, p, rest, hps, hta, hb, -⟩ := (hc y).delivers.body_read hs' (.inr hc') hw
        have hbefore : onWire c y = p.bytes :: rest.map Payload.bytes :=
          onWire_eq (by rw [hnil, hps, hta]; simp)
        have hafter : onWire c' y = rest.map Payload.bytes :=
          onWire_eq (by rw [hy, ht, hone, hps, hta, hb]; simp)
        exact .inr ⟨p.bytes, by rw [hbefore, hafter], hnil, by rw [hone, hb]⟩
  | transfer x n hx hy =>
    by_cases hyx : y = x
    · subst hyx
      exact sees_of_eq (by rw [hx]) (by rw [hy]) (by rw [hy]; rfl)
    · obtain rfl := Bool.eq_not.mpr (Ne.symm hyx)
      rw [Bool.not_not] at hy
      exact sees_of_eq (by rw [hy]) (by rw [hx]) (by rw [hx]; rfl)
  | ignored | close => cases ha

/-! ## Refinement -/

variable {s s' : Stack} {p : Pipe}

/-- Only the direction from `x` has a step of the medium. -/
theorem abs_update_of_ne {x y : Bool} (h : y ≠ x) (c : Conn) :
    abs ⟨c, Function.update s.pipe x p⟩ y = abs ⟨c, s.pipe⟩ y := by
  simp only [abs, Function.update_of_ne h]

theorem abs_update_self (x : Bool) (c : Conn) : abs ⟨c, Function.update s.pipe x p⟩ x =
    { p with wire := onWire c x, arrived := (c !x).available } := by
  simp only [abs, Function.update_self]

/-- A direction whose frames the socket leaves alone. -/
theorem abs_of_eq {y : Bool} {c c' : Conn} {pipe : Bool → Pipe} (hw : onWire c' y = onWire c y)
    (ha : (c' !y).available = (c !y).available) : abs ⟨c', pipe⟩ y = abs ⟨c, pipe⟩ y := by
  simp only [abs, hw, ha]

/-- What a step has to do to the frames of both directions. -/
def Refines (s s' : Stack) : Prop :=
  (∀ x, Linked (s'.conn x) (s'.conn !x)) ∧ ∀ y, Reaches Pipe.step (s.abs y) (s'.abs y)

theorem refines_call {x : Bool} {a : PipeAct} {r : Option Stack}
    (ha : a = .sendMessages ∨ a = .receiveMessages ∨ ∃ m, a = .sendMessage m)
    (hc : ∀ x, Linked (s.conn x) (s.conn !x)) (h : s.call x a = some r) :
    ∃ s', r = some s' ∧ Refines s s' := by
  obtain ⟨p, hp, rfl⟩ := Option.map_eq_some_iff.mp h
  refine ⟨_, rfl, hc, fun y => ?_⟩
  by_cases hy : y = x
  · subst hy
    rw [abs_update_self]
    exact .single (Pipe.step_frames ha hp _ _)
  · rw [abs_update_of_ne hy]
    exact .refl _

theorem refines_conn {a : ConnAct} {r : Option Stack} (hc : ∀ x, Linked (s.conn x) (s.conn !x))
    (h : step (some s) (.conn a) = some r) : ∃ s', r = some s' ∧ Refines s s' := by
  simp only [step] at h
  split_ifs at h with ha
  obtain ⟨o, ho, rfl⟩ := Option.map_eq_some_iff.mp h
  obtain ⟨c', rfl, hm⟩ := Conn.step_moves hc ho
  refine ⟨_, rfl, hm.linked hc, fun y => ?_⟩
  rcases sees_of_moves hc hm ha y with ⟨hw, hav⟩ | ⟨frame, hw, hnil, hone⟩
  · rw [show s.abs y = abs ⟨c', s.pipe⟩ y from (abs_of_eq hw hav).symm]
    exact .refl _
  · refine .single (a := .arrive) ?_
    simp only [abs, Pipe.step, hw, hnil, hone, List.nil_append]

/-- **`nn_send` puts its frame on the wire** of one direction. -/
theorem onWire_send {c c' : Conn} {x : Bool} {frame : Frame}
    {hlt : ([] ++ frame : Bytes).length < 2 ^ 64} {n : ℕ} (hc : ∀ x, Linked (c x) (c !x))
    (hm : c.Moves c' (.act x (.send [] frame hlt n))) :
    onWire c' x = onWire c x ++ [frame] ∧ (c' !x).available = (c !x).available ∧
      onWire c' (!x) = onWire c (!x) ∧ (c' x).available = (c x).available := by
  cases hm with
  | act x hx hy =>
    obtain ⟨hsent, ht, ha⟩ := hx.of_send
    refine ⟨onWire_eq ?_, by rw [hy], ?_, ha⟩
    · rw [hsent, List.map_append, onWire_spec hc x, hy, List.append_assoc]
      rfl
    · rw [onWire, onWire, Bool.not_not, hy, ht, ha]

/-- **`nn_recv` takes the available frame** of one direction. -/
theorem onWire_recv {c c' : Conn} {x : Bool} {n : ℕ} (hm : c.Moves c' (.act (!x) (.recv n))) :
    onWire c' x = onWire c x ∧ (c' !x).available = (c !x).available.tail ∧
      onWire c' (!x) = onWire c (!x) ∧ (c' x).available = (c x).available := by
  generalize hz : (!x) = z at hm
  cases hm with
  | act z hx hy =>
    subst hz
    rw [Bool.not_not] at hy
    obtain ⟨hsent, ha, ht, ha'⟩ := hx.of_recv
    refine ⟨?_, by rw [ha, ha']; rfl, ?_, by rw [hy]⟩
    · rw [onWire, onWire, hy, ht, ha, ha', List.append_nil]
    · rw [onWire, onWire, Bool.not_not, hsent, hy]

theorem refines_send {x eagain : Bool} {n : ℕ} {r : Option Stack}
    (hc : ∀ x, Linked (s.conn x) (s.conn !x)) (h : step (some s) (.send x eagain n) = some r) :
    ∃ s', r = some s' ∧ Refines s s' := by
  simp only [step] at h
  obtain ⟨p, hp, h⟩ := Option.bind_eq_some_iff.mp h
  split at h
  · next frame hw =>
    split_ifs at h with hlt
    obtain ⟨o, ho, rfl⟩ := Option.map_eq_some_iff.mp h
    obtain ⟨c', rfl, hm⟩ := Conn.step_moves hc ho
    obtain ⟨h1, h2, h3, h4⟩ := onWire_send hc hm
    refine ⟨_, rfl, hm.linked hc, fun y => ?_⟩
    by_cases hy : y = x
    · subst hy
      rw [abs_update_self, h1, h2]
      exact .single (a := .send eagain) (Pipe.sendStep_wire hp hw _ _)
    · obtain rfl := Bool.eq_not.mpr hy
      rw [abs_update_of_ne hy, abs_of_eq h3 (by rw [Bool.not_not, h4])]
      exact .refl _
  · cases h

theorem refines_recv {x eagain : Bool} {n : ℕ} {r : Option Stack}
    (hc : ∀ x, Linked (s.conn x) (s.conn !x)) (h : step (some s) (.recv x eagain n) = some r) :
    ∃ s', r = some s' ∧ Refines s s' := by
  by_cases hev : (s.conn !x).events = []
  · simp only [step, if_pos hev] at h
    obtain ⟨p, hp, h⟩ := Option.bind_eq_some_iff.mp h
    obtain ⟨hpa, hstep⟩ := Pipe.recvStep_wire hp (onWire s.conn x)
    by_cases hnil : (s.conn !x).available = []
    · rw [if_pos hnil] at h
      obtain rfl := Option.some.inj h
      refine ⟨_, rfl, hc, fun y => ?_⟩
      by_cases hy : y = x
      · subst hy
        have hpa' : p.arrived = (s.conn !y).available := by rw [hpa, hnil]; rfl
        rw [abs_update_self, ← hpa']
        exact .single (a := .recv eagain) hstep
      · rw [abs_update_of_ne hy]
        exact .refl _
    · rw [if_neg hnil] at h
      obtain ⟨o, ho, rfl⟩ := Option.map_eq_some_iff.mp h
      obtain ⟨c', rfl, hm⟩ := Conn.step_moves hc ho
      obtain ⟨h1, h2, h3, h4⟩ := onWire_recv hm
      refine ⟨_, rfl, hm.linked hc, fun y => ?_⟩
      by_cases hy : y = x
      · subst hy
        rw [abs_update_self, h1, h2, ← hpa]
        exact .single (a := .recv eagain) hstep
      · obtain rfl := Bool.eq_not.mpr hy
        rw [abs_update_of_ne hy, abs_of_eq h3 (by rw [Bool.not_not, h4])]
        exact .refl _
  · simp only [step, if_neg hev] at h
    cases h

/-- **A step over the connection** is a step of the frames in each direction, or none. -/
theorem refines_step {a : StackAct} {r : Option Stack} (hc : ∀ x, Linked (s.conn x) (s.conn !x))
    (h : step (some s) a = some r) : ∃ s', r = some s' ∧ Refines s s' := by
  cases a with
  | sendMessage x m => exact refines_call (.inr (.inr ⟨m, rfl⟩)) hc h
  | sendMessages x => exact refines_call (.inl rfl) hc h
  | receiveMessages x => exact refines_call (.inr (.inl rfl)) hc h
  | send x eagain n => exact refines_send hc h
  | recv x eagain n => exact refines_recv hc h
  | conn a => exact refines_conn hc h

/-- **Every run is one of the frames in both directions**, over linked ends. -/
theorem refines_exec {as : List StackAct} {r : Option Stack}
    (h : exec step (some init) as = some r) : ∃ s, r = some s ∧
      (∀ x, Linked (s.conn x) (s.conn !x)) ∧ ∀ x, Reaches Pipe.step Pipe.init (s.abs x) :=
  exec_invariant (I := fun r => ∃ s, r = some s ∧ (∀ x, Linked (s.conn x) (s.conn !x)) ∧
      ∀ x, Reaches Pipe.step Pipe.init (s.abs x))
    (fun t a t' ht hstep => by
      obtain ⟨s, rfl, hc, hr⟩ := ht
      obtain ⟨s', rfl, hc', hr'⟩ := refines_step hc hstep
      exact ⟨s', rfl, hc', fun x => (hr x).trans (hr' x)⟩)
    h ⟨init, rfl, Conn.linked_init _ _, fun x => .refl _⟩

/-- **The medium over a connection refines the medium over frames.** No run fails an assertion, and
in both directions it is a run of `Pipe`, whatever the two sockets do in between. -/
theorem stack_refines {as : List StackAct} {r : Option Stack}
    (h : exec step (some init) as = some r) : ∃ s, r = some s ∧
      ∀ x, Reaches Pipe.step Pipe.init (s.abs x) := by
  obtain ⟨s, hs, -, hr⟩ := refines_exec h
  exact ⟨s, hs, hr⟩

/-- The headers are exchanged, and one end pushes a message whose two frames cross. -/
def pushed : List StackAct :=
  Conn.exchange.map .conn ++ [.sendMessage false (.new [97] [42]), .sendMessages false,
    .send false false 4, .conn (.act false (.fdOut 20)), .conn (.act false (.process 0)),
    .conn (.act false (.process 0)), .send false false 10, .conn (.act false (.process 0)),
    .conn (.act false (.process 0)), .conn (.transfer false 21), .conn (.act true (.fdIn 2048)),
    .conn (.act true (.process 0)), .conn (.act true (.process 0)), .conn (.act true (.process 0))]

/-- The other end receives it. -/
def received : List StackAct :=
  pushed ++ [.receiveMessages false, .recv false false 0, .conn (.act true (.process 0)),
    .conn (.act true (.process 0)), .conn (.act true (.process 0)), .recv false false 0,
    .recv false false 0]

theorem stack_refines_received : ∃ s, exec step (some init) received = some (some s) ∧
    (s.pipe false).returns = [(true, true)] ∧ ∀ x, Reaches Pipe.step Pipe.init (s.abs x) := by
  have hrun := eq_some_get (o := exec step (some init) received) (by decide +kernel)
  obtain ⟨s, hs, hr⟩ := stack_refines hrun
  exact ⟨_, hrun, by decide +kernel, Option.some.inj hs ▸ hr⟩

variable {x : Bool}

/-- With nothing on its way in the connection no frame is. -/
theorem onWire_of_quiet (hc : ∀ x, Linked (c x) (c !x)) (hq : c.Quiet x) : onWire c x = [] :=
  onWire_eq (by rw [hq.all_available hc, List.append_nil])

/-- **Messages are decoded over a connection.** The inbox shows the first messages pushed, in every
state, and all of them once nothing is on its way; and every `ReceiveMessages` returned true exactly
if it pushed something. -/
theorem stack_decodes {as : List StackAct} (h : exec step (some init) as = some (some s))
    (ht : ∀ m ∈ (s.pipe x).pushed, Transmissible m) :
    (s.pipe x).inbox.map Message.view <+: (s.pipe x).pushed.map Message.view ∧
      ((s.pipe x).outbox = [] → s.conn.Quiet x → (s.conn !x).available = [] →
        (s.pipe x).inbox.map Message.view = (s.pipe x).pushed.map Message.view) ∧
      ∀ r ∈ (s.pipe x).returns, r.1 = r.2 := by
  obtain ⟨_, hs, hc, hr⟩ := refines_exec h
  obtain rfl := Option.some.inj hs
  obtain ⟨ps, hps⟩ := hr x
  have hstreams := Pipe.streams_of_transmissible hps ht
  exact ⟨hstreams.view_prefix,
    fun ho hq ha => hstreams.decodes.1 ⟨ho, onWire_of_quiet hc hq, ha⟩, hstreams.decodes.2⟩

theorem stack_decodes_received : ∃ s, exec step (some init) received = some (some s) ∧
    (s.pipe false).pushed = [.new [97] [42]] ∧
      (s.pipe false).inbox.map Message.view <+: (s.pipe false).pushed.map Message.view := by
  have hrun := eq_some_get (o := exec step (some init) received) (by decide +kernel)
  have hpushed : ((((exec step (some init) received).bind id).get
      (by decide +kernel)).pipe false).pushed = [.new [97] [42]] := by decide +kernel
  refine ⟨_, hrun, hpushed, (stack_decodes (x := false) hrun ?_).1⟩
  rw [hpushed, List.forall_mem_singleton]
  exact ⟨by decide +kernel, by decide, by decide⟩

end Stack

end Petunia.Nanomsg
