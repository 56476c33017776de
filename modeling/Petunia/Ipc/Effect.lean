import Petunia.Ipc.Session
import Mathlib.Tactic.Common

set_option autoImplicit false

/-!
# What a step of an end does

The assertions of `excl.c`, `pipe.c` and `sipc.c` say in which order their functions may be called.
They hold because the states of these layers move together: at any time the sending half of an end
is in one of a few phases, and so is the receiving half.

* `OutPhase`, `InPhase`, `Queued`: the phases of the two halves and the queue of events;
* `Valid`: all three; `valid_init`;
* `Effect`: what a step does to a valid end;
* **`act_effect`**: no assertion fails, and the step is one of these.
-/

namespace Petunia.Ipc

open CTypes Lts

namespace End

/-! ## One call of the operating system -/

/-- The event that follows a buffer which lacks `want` bytes. -/
def receivedIf (want : ℕ) : List Event := if want = 0 then [.received] else []

/-- The event that follows the buffers left to send. -/
def sentIf (hdr : List Bytes) : List Event := if hdr = [] then [.sent] else []

@[simp] theorem mem_receivedIf {event : Event} {want : ℕ} :
    event ∈ receivedIf want ↔ event = .received ∧ want = 0 := by
  unfold receivedIf
  split_ifs with h <;> simp [h]

@[simp] theorem mem_sentIf {event : Event} {hdr : List Bytes} :
    event ∈ sentIf hdr ↔ event = .sent ∧ hdr = [] := by
  unfold sentIf
  split_ifs with h <;> simp [h]

/-- A buffer for `len` bytes that took the first of the bytes at hand. -/
structure Fills (atHand : Bytes) (len : ℕ) (u : In) (incoming buf : Bytes) (want : ℕ) : Prop where
  bytes : buf ++ u.ahead ++ incoming = atHand
  length : buf.length + want = len

/-- The buffers after some bytes of those before have been written. -/
structure Writes (e : End) (outgoing : Bytes) (hdr : List Bytes) : Prop where
  bytes : outgoing ++ hdr.flatten = e.outgoing ++ e.hdr.flatten
  ne_nil : ∀ iov ∈ hdr, iov ≠ []

theorem usockRecvRaw_spec (e : End) (n : ℕ) : ∃ u incoming buf want,
    Fills (e.buf ++ e.u.ahead ++ e.incoming) (e.buf.length + e.want) u incoming buf want ∧
      (e.want ≠ 0 → e.u.ahead ≠ [] ∨ (e.incoming ≠ [] ∧ n ≠ 0) → want < e.want) ∧
      e.usockRecvRaw n =
        { e with u, incoming, buf, want, events := e.events ++ receivedIf want } := by
  obtain ⟨hb, hl⟩ := recvRaw_spec e.u e.want e.incoming n
  have hp : e.want ≠ 0 → e.u.ahead ≠ [] ∨ (e.incoming ≠ [] ∧ n ≠ 0) →
      (recvRaw e.u e.want e.incoming n).copied ≠ [] := fun hw h => recvRaw_progress hw h
  generalize hr : recvRaw e.u e.want e.incoming n = r at hb hl hp
  refine ⟨r.u, r.line, e.buf ++ r.copied, e.want - r.copied.length, ⟨?_, ?_⟩, fun hw h => ?_, ?_⟩
  · rw [List.append_assoc e.buf, List.append_assoc e.buf, hb, List.append_assoc]
  · rw [List.length_append]
    omega
  · have := List.length_pos_iff.mpr (hp hw h)
    omega
  · unfold usockRecvRaw receivedIf
    rw [hr]
    dsimp only
    split_ifs with h
    · rfl
    · rw [List.append_nil]

theorem usockRecv_spec (e : End) (len n : ℕ) : ∃ u incoming buf want,
    Fills (e.u.ahead ++ e.incoming) len u incoming buf want ∧
      e.usockRecv len n = { e with
        u, incoming, buf, want, read := e.read ++ e.buf
        events := e.events ++ receivedIf want } := by
  obtain ⟨u, incoming, buf, want, hf, -, h⟩ :=
    usockRecvRaw_spec { e with read := e.read ++ e.buf, buf := [], want := len } n
  refine ⟨u, incoming, buf, want, ?_, h⟩
  simpa using hf

theorem usockSendRaw_spec (e : End) (hne : ∀ iov ∈ e.hdr, iov ≠ []) (n : ℕ) :
    ∃ outgoing hdr, Writes e outgoing hdr ∧
      (e.hdr ≠ [] → n ≠ 0 → hdr.flatten.length < e.hdr.flatten.length) ∧
      e.usockSendRaw n = some { e with outgoing, hdr, events := e.events ++ sentIf hdr } := by
  have hpos : e.hdr ≠ [] → 0 < e.hdr.flatten.length := fun hh => by
    obtain ⟨iov, hdr, h⟩ := List.exists_cons_of_ne_nil hh
    have hiov := List.length_pos_iff.mpr (hne iov (by rw [h]; exact List.mem_cons_self))
    rw [h, List.flatten_cons, List.length_append]
    omega
  have hle : min n e.hdr.flatten.length ≤ e.hdr.flatten.length := Nat.min_le_right _ _
  rcases sendRaw_spec hne hle with ⟨hs, hl⟩ | ⟨hdr, hs, hnil, hne', hd⟩
  · refine ⟨e.outgoing ++ e.hdr.flatten, [], ⟨by simp, by simp⟩, fun hh _ => hpos hh, ?_⟩
    simp only [usockSendRaw, hs]
    rw [← hl, List.take_length]
    rfl
  · refine ⟨e.outgoing ++ e.hdr.flatten.take (min n e.hdr.flatten.length), hdr, ⟨?_, hne'⟩,
      fun hh hn => ?_, ?_⟩
    · rw [hd, List.append_assoc, List.take_append_drop]
    · have := hpos hh
      rw [hd, List.length_drop]
      omega
    · simp only [usockSendRaw, hs]
      rw [sentIf, if_neg hnil, List.append_nil]

/-! ## Phases -/

/-- The phases of the sending half. -/
inductive OutPhase (e : End) : Prop
  | header (hs : e.state = .sending) (ho : e.outpipe = false) (hsent : e.sent = [])
    (hev : .sent ∈ e.events ↔ e.hdr = []) (hev' : .pipeOut ∉ e.events)
  | exchange (hs : e.state = .receiving ∨ e.state = .stopping) (ho : e.outpipe = false)
    (hsent : e.sent = []) (hh : e.hdr = []) (hev : .sent ∉ e.events) (hev' : .pipeOut ∉ e.events)
  | ready (hs : e.state = .active) (hp : e.pipeOut = .idle) (hi : e.sipcOut = .idle)
    (hh : e.hdr = []) (hev : .sent ∉ e.events) (hev' : .pipeOut ∈ e.events ↔ e.outpipe = false)
  | writing (hs : e.state = .active) (ho : e.outpipe = false) (hp : e.pipeOut = .async)
    (hi : e.sipcOut = .sending) (hev : .sent ∈ e.events ↔ e.hdr = []) (hev' : .pipeOut ∉ e.events)
  | done (hs : e.state = .done) (ho : e.outpipe = false) (hev : e.events = [])

/-- The phases of the receiving half. -/
inductive InPhase (e : End) : Prop
  | waiting (hs : e.state = .sending) (hi : e.inpipe = false) (hw : e.want = 0)
    (hev : .received ∉ e.events) (hev' : .pipeIn ∉ e.events)
  | header (hs : e.state = .receiving) (hi : e.inpipe = false) (hl : e.buf.length + e.want = 8)
    (hev : .received ∈ e.events ↔ e.want = 0) (hev' : .pipeIn ∉ e.events)
  | exchanged (hs : e.state = .stopping) (hi : e.inpipe = false) (hw : e.want = 0)
    (hev : .received ∉ e.events) (hev' : .pipeIn ∉ e.events)
  | size (hs : e.state = .active) (hi : e.inpipe = false) (hp : e.pipeIn = .async)
    (hc : e.sipcIn = .hdr) (hl : e.buf.length + e.want = 9)
    (hev : .received ∈ e.events ↔ e.want = 0) (hev' : .pipeIn ∉ e.events)
  | body (hs : e.state = .active) (hi : e.inpipe = false) (hp : e.pipeIn = .async)
    (hc : e.sipcIn = .body) (hev : .received ∈ e.events ↔ e.want = 0) (hev' : .pipeIn ∉ e.events)
  | hasmsg (hs : e.state = .active) (hp : e.pipeIn = .idle) (hc : e.sipcIn = .hasmsg)
    (hw : e.want = 0) (hev : .received ∉ e.events) (hev' : .pipeIn ∈ e.events ↔ e.inpipe = false)
  | done (hs : e.state = .done) (hi : e.inpipe = false) (hev : e.events = [])

/-- The queues of events that occur. -/
def Queued (e : End) : Prop :=
  e.events ∈ [[], [.sent], [.received], [.pipeOut], [.pipeIn], [.pipeOut, .received]]

/-- An end whose layers agree. -/
structure Valid (e : End) : Prop where
  out : OutPhase e
  inp : InPhase e
  queued : Queued e
  ne_nil : ∀ iov ∈ e.hdr, iov ≠ []

theorem valid_init (socktype : Socktype) (rcvmaxsize : ℤ) : Valid (init socktype rcvmaxsize) where
  out := .header rfl rfl rfl (by simp [init]) (by simp [init])
  inp := .waiting rfl rfl rfl (by simp [init]) (by simp [init])
  queued := by simp [Queued, init]
  ne_nil := by simp [init, protohdr]

/-! ## Effects -/

/-- What a step does. -/
inductive Effect (e : End) : Act → End → Prop
  /-- The protocol header has been sent; the peer's is awaited. -/
  | headerSent {u : In} {incoming buf : Bytes} {want : ℕ} (n : ℕ) (hs : e.state = .sending)
    (hev : e.events = [.sent]) (hf : Fills (e.u.ahead ++ e.incoming) 8 u incoming buf want) :
    Effect e (.process n) { e with
      state := .receiving, u, incoming, buf, want, read := e.read ++ e.buf
      events := receivedIf want }
  /-- The peer's protocol header is there. -/
  | headerRead (n : ℕ) (hs : e.state = .receiving) (hev : e.events = [.received])
    (hl : e.buf.length = 8) (hw : e.want = 0) :
    Effect e (.process n) { e with
      state := if accepts e.socktype e.buf then .stopping else .done, events := [] }
  /-- The session starts. -/
  | started {u : In} {incoming buf : Bytes} {want : ℕ} (n : ℕ) (hs : e.state = .stopping)
    (hev : e.events = []) (hf : Fills (e.u.ahead ++ e.incoming) 9 u incoming buf want) :
    Effect e (.stopped n) { e with
      state := .active, pipeIn := .async, pipeOut := .idle, sipcIn := .hdr, sipcOut := .idle
      u, incoming, buf, want, read := e.read ++ e.buf, events := .pipeOut :: receivedIf want }
  /-- A message has been written. -/
  | written (n : ℕ) (hs : e.state = .active) (hev : e.events = [.sent]) :
    Effect e (.process n) { e with events := [.pipeOut], sipcOut := .idle, pipeOut := .idle }
  /-- The socket may send again. -/
  | outReady {events : List Event} (n : ℕ) (hs : e.state = .active)
    (hev : e.events = .pipeOut :: events) (ho : e.outpipe = false) :
    Effect e (.process n) { e with events, outpipe := true }
  /-- The size of a message exceeds the limit. -/
  | tooLarge (n : ℕ) (hs : e.state = .active) (hev : e.events = [.received])
    (hc : e.sipcIn = .hdr) (hl : e.buf.length = 9)
    (hsize : 0 ≤ e.rcvmaxsize ∧ e.rcvmaxsize < (getll (e.buf.drop 1)).toNat) :
    Effect e (.process n) { e with
      state := .done, events := [], outpipe := false, inpipe := false }
  /-- The size is `0`, and the message there. -/
  | empty (n : ℕ) (hs : e.state = .active) (hev : e.events = [.received]) (hc : e.sipcIn = .hdr)
    (hl : e.buf.length = 9) (hsize : (getll (e.buf.drop 1)).toNat = 0) :
    Effect e (.process n) { e with
      events := [.pipeIn], sipcIn := .hasmsg, pipeIn := .idle, read := e.read ++ e.buf, buf := [] }
  /-- The size is read; the body is awaited. -/
  | bodyAwaited {u : In} {incoming buf : Bytes} {want : ℕ} (n : ℕ) (hs : e.state = .active)
    (hev : e.events = [.received]) (hc : e.sipcIn = .hdr) (hl : e.buf.length = 9)
    (hsize : ¬ (0 ≤ e.rcvmaxsize ∧ e.rcvmaxsize < (getll (e.buf.drop 1)).toNat))
    (hf : Fills (e.u.ahead ++ e.incoming) (getll (e.buf.drop 1)).toNat u incoming buf want)
    (h0 : (getll (e.buf.drop 1)).toNat ≠ 0) :
    Effect e (.process n) { e with
      sipcIn := .body, u, incoming, buf, want, read := e.read ++ e.buf
      events := receivedIf want }
  /-- The body is there. -/
  | bodyRead (n : ℕ) (hs : e.state = .active) (hev : e.events = [.received])
    (hc : e.sipcIn = .body) (hw : e.want = 0) :
    Effect e (.process n) { e with events := [.pipeIn], sipcIn := .hasmsg, pipeIn := .idle }
  /-- The socket may hand out the message. -/
  | inReady (n : ℕ) (hs : e.state = .active) (hev : e.events = [.pipeIn])
    (hi : e.inpipe = false) (hc : e.sipcIn = .hasmsg) :
    Effect e (.process n) { e with events := [], inpipe := true }
  | fdOut {outgoing : Bytes} {hdr : List Bytes} (n : ℕ)
    (hs : e.state = .sending ∨ e.state = .active) (hev : e.events = []) (hh : e.hdr ≠ [])
    (hw : Writes e outgoing hdr)
    (hpos : n ≠ 0 → hdr.flatten.length < e.hdr.flatten.length) :
    Effect e (.fdOut n) { e with outgoing, hdr, events := sentIf hdr }
  | fdIn {u : In} {incoming buf : Bytes} {want : ℕ} (n : ℕ) (hs : e.state ≠ .done)
    (hev : e.events = []) (hwant : e.want ≠ 0)
    (hf : Fills (e.buf ++ e.u.ahead ++ e.incoming) (e.buf.length + e.want) u incoming buf want)
    (hpos : e.u.ahead ≠ [] ∨ (e.incoming ≠ [] ∧ n ≠ 0) → want < e.want) :
    Effect e (.fdIn n) { e with u, incoming, buf, want, events := receivedIf want }
  /-- A message is accepted. -/
  | send {outgoing : Bytes} {hdr : List Bytes} {sphdr body : Bytes}
    (size_lt : (sphdr ++ body).length < 2 ^ 64) (n : ℕ) (hs : e.state = .active)
    (hev : e.events = []) (ho : e.outpipe = true) (hh : e.hdr = [])
    (hb : outgoing ++ hdr.flatten =
      e.outgoing ++ Payload.encode ⟨sphdr ++ body, size_lt⟩)
    (hne : ∀ iov ∈ hdr, iov ≠ []) :
    Effect e (.send sphdr body size_lt n) { e with
      sent := e.sent ++ [⟨sphdr ++ body, size_lt⟩], outpipe := false, pipeOut := .async
      sipcOut := .sending, outgoing, hdr, events := sentIf hdr }
  /-- A message is handed out. -/
  | recv {u : In} {incoming buf : Bytes} {want : ℕ} (n : ℕ) (hs : e.state = .active)
    (hev : e.events = []) (hi : e.inpipe = true) (hc : e.sipcIn = .hasmsg)
    (hf : Fills (e.u.ahead ++ e.incoming) 9 u incoming buf want) :
    Effect e (.recv n) { e with
      taken := e.taken ++ [e.buf], inpipe := false, pipeIn := .async, sipcIn := .hdr
      u, incoming, buf, want, read := e.read ++ e.buf, events := receivedIf want }

/-! ## No assertion fails -/

section

variable {e : End} {n : ℕ} {r : Option End}

/-- The sending half when its data has been written. -/
theorem Valid.of_sent (hv : Valid e) (hev : .sent ∈ e.events) : e.state = .sending ∨
    e.state = .active ∧ e.pipeOut = .async ∧ e.sipcOut = .sending := by
  cases hv.out with
  | header hs => exact .inl hs
  | exchange hs ho hsent hh hno => exact absurd hev hno
  | ready hs hp hi hh hno => exact absurd hev hno
  | writing hs ho hp hi => exact .inr ⟨hs, hp, hi⟩
  | done hs ho hnil => rw [hnil] at hev; cases hev

/-- The receiving half when its buffer has been filled. -/
theorem Valid.of_received (hv : Valid e) (hev : .received ∈ e.events) :
    e.want = 0 ∧ e.inpipe = false ∧
      (e.state = .receiving ∧ e.buf.length = 8 ∨
        e.state = .active ∧ e.pipeIn = .async ∧
          (e.sipcIn = .hdr ∧ e.buf.length = 9 ∨ e.sipcIn = .body)) := by
  cases hv.inp with
  | waiting hs hi hw hno => exact absurd hev hno
  | header hs hi hl hiff =>
    have hw := hiff.mp hev
    exact ⟨hw, hi, .inl ⟨hs, by omega⟩⟩
  | exchanged hs hi hw hno => exact absurd hev hno
  | size hs hi hp hc hl hiff =>
    have hw := hiff.mp hev
    exact ⟨hw, hi, .inr ⟨hs, hp, .inl ⟨hc, by omega⟩⟩⟩
  | body hs hi hp hc hiff => exact ⟨hiff.mp hev, hi, .inr ⟨hs, hp, .inr hc⟩⟩
  | hasmsg hs hp hc hw hno => exact absurd hev hno
  | done hs hi hnil => rw [hnil] at hev; cases hev

/-- The sending half when its pipe is to join the socket. -/
theorem Valid.of_pipeOut (hv : Valid e) (hev : .pipeOut ∈ e.events) :
    e.state = .active ∧ e.outpipe = false := by
  cases hv.out with
  | header hs ho hsent hiff hno => exact absurd hev hno
  | exchange hs ho hsent hh hno hno' => exact absurd hev hno'
  | ready hs hp hi hh hno hiff => exact ⟨hs, hiff.mp hev⟩
  | writing hs ho hp hi hiff hno => exact absurd hev hno
  | done hs ho hnil => rw [hnil] at hev; cases hev

/-- The receiving half when its pipe is to join the socket. -/
theorem Valid.of_pipeIn (hv : Valid e) (hev : .pipeIn ∈ e.events) :
    e.state = .active ∧ e.inpipe = false ∧ e.sipcIn = .hasmsg := by
  cases hv.inp with
  | waiting hs hi hw hno hno' => exact absurd hev hno'
  | header hs hi hl hiff hno => exact absurd hev hno
  | exchanged hs hi hw hno hno' => exact absurd hev hno'
  | size hs hi hp hc hl hiff hno => exact absurd hev hno
  | body hs hi hp hc hiff hno => exact absurd hev hno
  | hasmsg hs hp hc hw hno hiff => exact ⟨hs, hiff.mp hev, hc⟩
  | done hs hi hnil => rw [hnil] at hev; cases hev

/-- An event is alone in the queue, or it is the first `NN_PIPE_OUT`. -/
theorem Valid.queue (hv : Valid e) {event : Event} {events : List Event} (h : e.events = event :: events) :
    events = [] ∨ event = .pipeOut := by
  have hq := hv.queued
  rw [Queued, h] at hq
  simp only [List.mem_cons, List.cons.injEq, List.not_mem_nil, or_false, reduceCtorEq,
    false_or] at hq
  rcases hq with ⟨-, h⟩ | ⟨-, h⟩ | ⟨-, h⟩ | ⟨-, h⟩ | ⟨h, -⟩
  · exact .inl h
  · exact .inl h
  · exact .inl h
  · exact .inl h
  · exact .inr h

theorem pipebaseSent_async (e : End) (hp : e.pipeOut = .async) :
    e.pipebaseSent = some { e with pipeOut := .idle, events := e.events ++ [.pipeOut] } := by
  simp only [pipebaseSent, hp, raise]

theorem pipebaseReceived_async (e : End) (hp : e.pipeIn = .async) :
    e.pipebaseReceived = some { e with pipeIn := .idle, events := e.events ++ [.pipeIn] } := by
  simp only [pipebaseReceived, hp, raise]

theorem handle_sent_active (e : End) (hs : e.state = .active) (hi : e.sipcOut = .sending) :
    e.handle n .sent = { e with sipcOut := .idle }.pipebaseSent := by
  simp only [handle, hs, hi, ite_true]

theorem handle_sent_sending (e : End) (hs : e.state = .sending) :
    e.handle n .sent = some ({ e with state := .receiving }.usockRecv 8 n) := by
  simp only [handle, hs]

theorem handle_received_receiving (e : End) (hs : e.state = .receiving) :
    e.handle n .received =
      some { e with state := if accepts e.socktype e.buf then .stopping else .done } := by
  simp only [handle, hs]

theorem handle_received_active (e : End) (hs : e.state = .active) :
    e.handle n .received = e.sipcReceived n := by
  simp only [handle, hs]

/-- The header of a message has been read. -/
theorem sipcReceived_hdr (e : End) (hc : e.sipcIn = .hdr) (hb : e.buf.head? = some msgNormal) :
    e.sipcReceived n =
      if 0 ≤ e.rcvmaxsize ∧ e.rcvmaxsize < (getll (e.buf.drop 1)).toNat then
        some { e with state := .done, outpipe := false, inpipe := false }
      else if (getll (e.buf.drop 1)).toNat = 0 then
        { e with read := e.read ++ e.buf, buf := [], sipcIn := .hasmsg }.pipebaseReceived
      else some ({ e with sipcIn := .body }.usockRecv (getll (e.buf.drop 1)).toNat n) := by
  simp only [sipcReceived, hc, hb, ite_true]

theorem sipcReceived_body (e : End) (hc : e.sipcIn = .body) :
    e.sipcReceived n = { e with sipcIn := .hasmsg }.pipebaseReceived := by
  simp only [sipcReceived, hc]

theorem effect_sent (hv : Valid e) (hev : e.events = [.sent]) :
    ∃ e', { e with events := [] }.handle n .sent = some e' ∧ Effect e (.process n) e' := by
  rcases hv.of_sent (by simp [hev]) with hs | ⟨hs, hp, hi⟩
  · obtain ⟨u, incoming, buf, want, hf, hr⟩ :=
      usockRecv_spec { e with events := [], state := .receiving } 8 n
    exact ⟨_, (handle_sent_sending { e with events := [] } hs).trans (congrArg some hr),
      .headerSent n hs hev hf⟩
  · exact ⟨_, (handle_sent_active { e with events := [] } hs hi).trans
      (pipebaseSent_async { e with events := [], sipcOut := .idle } hp), .written n hs hev⟩

theorem effect_received (hv : Valid e)
    (hhdr : e.state = .active → e.sipcIn = .hdr → .received ∈ e.events →
      e.buf.head? = some msgNormal)
    (hev : e.events = [.received]) :
    ∃ e', { e with events := [] }.handle n .received = some e' ∧ Effect e (.process n) e' := by
  obtain ⟨hw, -, ⟨hs, hl⟩ | ⟨hs, hp, ⟨hc, hl⟩ | hc⟩⟩ := hv.of_received (by simp [hev])
  · exact ⟨_, handle_received_receiving { e with events := [] } hs, .headerRead n hs hev hl hw⟩
  · rw [handle_received_active { e with events := [] } hs,
      sipcReceived_hdr { e with events := [] } hc (hhdr hs hc (by simp [hev]))]
    split_ifs with hlarge hsize
    · exact ⟨_, rfl, .tooLarge n hs hev hc hl hlarge⟩
    · exact ⟨_, pipebaseReceived_async
        { e with events := [], read := e.read ++ e.buf, buf := [], sipcIn := .hasmsg } hp,
        .empty n hs hev hc hl hsize⟩
    · obtain ⟨u, incoming, buf, want, hf, hr⟩ := usockRecv_spec
        { e with events := [], sipcIn := .body } (getll (e.buf.drop 1)).toNat n
      exact ⟨_, congrArg some hr, .bodyAwaited n hs hev hc hl hlarge hf hsize⟩
  · rw [handle_received_active { e with events := [] } hs,
      sipcReceived_body { e with events := [] } hc]
    exact ⟨_, pipebaseReceived_async { e with events := [], sipcIn := .hasmsg } hp,
      .bodyRead n hs hev hc hw⟩

theorem effect_process (hv : Valid e)
    (hhdr : e.state = .active → e.sipcIn = .hdr → .received ∈ e.events →
      e.buf.head? = some msgNormal)
    (h : e.act (.process n) = some r) : ∃ e', r = some e' ∧ Effect e (.process n) e' := by
  cases hev : e.events with
  | nil => simp only [act, hev, reduceCtorEq] at h
  | cons event events =>
    simp only [act, hev, Option.some.injEq] at h
    subst h
    cases event with
    | sent =>
      obtain rfl := (hv.queue hev).resolve_right Event.noConfusion
      exact effect_sent hv hev
    | received =>
      obtain rfl := (hv.queue hev).resolve_right Event.noConfusion
      exact effect_received hv hhdr hev
    | pipeOut =>
      obtain ⟨hs, ho⟩ := hv.of_pipeOut (by simp [hev])
      refine ⟨_, ?_, .outReady n hs hev ho⟩
      simp only [handle, ho, Bool.false_eq_true, if_false]
    | pipeIn =>
      obtain rfl := (hv.queue hev).resolve_right Event.noConfusion
      obtain ⟨hs, hi, hc⟩ := hv.of_pipeIn (by simp [hev])
      refine ⟨_, ?_, .inReady n hs hev hi hc⟩
      simp only [handle, hi, Bool.false_eq_true, if_false]

/-- The sending half when the socket has its pipe. -/
theorem Valid.of_outpipe (hv : Valid e) (ho : e.outpipe = true) :
    e.state = .active ∧ e.pipeOut = .idle ∧ e.sipcOut = .idle ∧ e.hdr = [] := by
  cases hv.out with
  | ready hs hp hi hh => exact ⟨hs, hp, hi, hh⟩
  | header hs ho' | exchange hs ho' | writing hs ho' | done hs ho' =>
    rw [ho] at ho'
    cases ho'

/-- The receiving half when the socket has its pipe. -/
theorem Valid.of_inpipe (hv : Valid e) (hi : e.inpipe = true) :
    e.state = .active ∧ e.pipeIn = .idle ∧ e.sipcIn = .hasmsg := by
  cases hv.inp with
  | hasmsg hs hp hc => exact ⟨hs, hp, hc⟩
  | waiting hs hi' | header hs hi' | exchanged hs hi' | size hs hi' | body hs hi' | done hs hi' =>
    rw [hi] at hi'
    cases hi'

theorem effect_send (hv : Valid e) {sphdr body : Bytes}
    {size_lt : (sphdr ++ body).length < 2 ^ 64} (h : e.act (.send sphdr body size_lt n) = some r) :
    ∃ e', r = some e' ∧ Effect e (.send sphdr body size_lt n) e' := by
  simp only [act] at h
  split_ifs at h with hen
  obtain ⟨hev, ho⟩ := hen
  obtain rfl := (Option.some.inj h).symm
  obtain ⟨hs, hp, hi, hh⟩ := hv.of_outpipe ho
  have hne : ∀ iov ∈ iovecs [outhdr (sphdr.length + body.length), sphdr, body], iov ≠ [] :=
    fun iov hiov => by simpa using (List.mem_filter.mp hiov).2
  -- the call, up to where the pipe releases the socket
  obtain ⟨outgoing, hdr, hw, -, hr⟩ := usockSendRaw_spec
    { e with
      sent := e.sent ++ [⟨sphdr ++ body, size_lt⟩], pipeOut := .sending, sipcOut := .sending
      hdr := iovecs [outhdr (sphdr.length + body.length), sphdr, body] } hne n
  have hcall : exclSend { e with sent := e.sent ++ [⟨sphdr ++ body, size_lt⟩] } sphdr body n =
      some { e with
        sent := e.sent ++ [⟨sphdr ++ body, size_lt⟩], outpipe := false, pipeOut := .async
        sipcOut := .sending, outgoing, hdr, events := e.events ++ sentIf hdr } := by
    simp only [exclSend, pipeSend, sipcSend, usockSend, hp, hs, hi, and_self, ite_true]
    rw [hs] at hr
    rw [hr]
    rfl
  refine ⟨_, hcall, ?_⟩
  rw [hev, List.nil_append]
  refine .send size_lt n hs hev ho hh ?_ hw.ne_nil
  rw [hw.bytes, flatten_iovecs]
  simp [Payload.encode]

theorem effect_recv (hv : Valid e) (h : e.act (.recv n) = some r) :
    ∃ e', r = some e' ∧ Effect e (.recv n) e' := by
  simp only [act] at h
  split_ifs at h with hen
  obtain ⟨hev, hi⟩ := hen
  obtain rfl := (Option.some.inj h).symm
  obtain ⟨hs, hp, hc⟩ := hv.of_inpipe hi
  obtain ⟨u, incoming, buf, want, hf, hr⟩ := usockRecv_spec
    { e with pipeIn := .receiving, taken := e.taken ++ [e.buf], sipcIn := .hdr } 9 n
  have hcall : e.exclRecv n = some { e with
      taken := e.taken ++ [e.buf], inpipe := false, pipeIn := .async, sipcIn := .hdr
      u, incoming, buf, want, read := e.read ++ e.buf, events := e.events ++ receivedIf want } := by
    simp only [exclRecv, pipeRecv, sipcRecv, hp, hs, hc, and_self, ite_true]
    rw [hs] at hr
    rw [hr]
    rfl
  refine ⟨_, hcall, ?_⟩
  rw [hev, List.nil_append]
  exact .recv n hs hev hi hc hf

/-- **No assertion fails at a valid end**, and a step is one of the effects, as long as the bytes
that it takes for the header of a message begin with the type of one. -/
theorem act_effect {a : Act} (hv : Valid e)
    (hhdr : e.state = .active → e.sipcIn = .hdr → .received ∈ e.events →
      e.buf.head? = some msgNormal)
    (h : e.act a = some r) : ∃ e', r = some e' ∧ Effect e a e' := by
  cases a with
  | process n => exact effect_process hv hhdr h
  | fdOut n =>
    simp only [act] at h
    split_ifs at h with hen
    obtain ⟨hev, hs, hh⟩ := hen
    obtain rfl := (Option.some.inj h).symm
    obtain ⟨outgoing, hdr, hw, hpos, hr⟩ := usockSendRaw_spec e hv.ne_nil n
    refine ⟨_, hr, ?_⟩
    rw [hev, List.nil_append]
    refine .fdOut n ?_ hev hh hw (hpos hh)
    cases hv.out with
    | header hs' => exact .inl hs'
    | writing hs' => exact .inr hs'
    | exchange hs' ho hsent hh' | ready hs' hp hi hh' => exact absurd hh' hh
    | done hs' => exact absurd hs' hs
  | fdIn n =>
    simp only [act] at h
    split_ifs at h with hen
    obtain ⟨hev, hs, hw⟩ := hen
    obtain rfl := (Option.some.inj h).symm
    obtain ⟨u, incoming, buf, want, hf, hpos, hr⟩ := usockRecvRaw_spec e n
    refine ⟨_, congrArg some hr, ?_⟩
    rw [hev, List.nil_append]
    exact .fdIn n hs hev hw hf (hpos hw)
  | stopped n =>
    simp only [act] at h
    split_ifs at h with hen
    obtain ⟨hev, hs⟩ := hen
    obtain rfl := (Option.some.inj h).symm
    obtain ⟨u, incoming, buf, want, hf, hr⟩ := usockRecv_spec
      { { e with state := .active, pipeIn := .async, pipeOut := .idle }.raise .pipeOut with
        sipcIn := .hdr, sipcOut := .idle } 9 n
    have hr' : e.start n = { e with
        state := .active, pipeIn := .async, pipeOut := .idle, sipcIn := .hdr, sipcOut := .idle
        u, incoming, buf, want, read := e.read ++ e.buf
        events := (e.events ++ [.pipeOut]) ++ receivedIf want } := hr
    refine ⟨_, congrArg some hr', ?_⟩
    rw [hev]
    exact .started n hs hev hf
  | send sphdr body size_lt n => exact effect_send hv h
  | recv n => exact effect_recv hv h

end

end End

end Petunia.Ipc
