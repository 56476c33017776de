import Petunia.Lib.Run
import Petunia.Message

set_option autoImplicit false

/-!
# The nanomsg medium, one direction

A message travels as two frames, its type with the terminator and its data. The socket is an
unbroken `NN_PAIR` connection: it delivers frames unmodified, in order and exactly once.

`nn_send` and `nn_recv` return the length of the frame as an `int`. `nn.hpp` takes a negative result
for an error although the frame was transferred; `errno`, left by some earlier call, then decides
between `-1` and an exception. The steps carry that choice.

* `typeFrame`, `dataFrame`, `Frame.result`: what is sent, and what the socket returns for it;
* `Pipe`, `Pipe.step`: sender, socket and receiver, one frame at a time;
* `Pipe.Effect`, **`Pipe.step_effect`**: what one step can do;
* `Pipe.Decodes`: decoding undoes encoding.
-/

namespace Petunia.Nanomsg

open CTypes Lts

/-- The bytes of one nanomsg message. -/
abbrev Frame := Bytes

/-- The first frame of a message: `strlen(GetType()) + 1` bytes. -/
def typeFrame (m : Message) : Frame := m.getType.bytes ++ [0]

/-- The second frame of a message. -/
def dataFrame (m : Message) : Frame := m.getData

/-- The result of `send` or `recv` for a transferred frame; `none` is an `nn::exception`. -/
def Frame.result (frame : Frame) (eagain : Bool) : Option ℤ :=
  if cInt frame.length < 0 then (if eagain then some (-1) else none)
  else some (cInt frame.length)

/-- `SendMessages` between calls, or before one of its two `send`s. -/
inductive SendPc
  | idle
  | sendType
  | sendData
  deriving DecidableEq

/-- The locals of a `ReceiveMessages` call: `received`, and the length of the inbox at its start. -/
structure Call where
  received : Bool
  inboxSize : ℕ
  deriving DecidableEq

/-- `ReceiveMessages` between calls, or before one of its two `recv`s. -/
inductive ReceivePc
  | idle
  | recvType (call : Call)
  | recvData (messageType : CString) (call : Call)
  deriving DecidableEq

/-- Sender, socket and receiver. -/
structure Pipe where
  outbox : List Message
  send : SendPc
  /-- Frames sent that have not reached the receiver. -/
  wire : List Frame
  /-- Frames that the receiver can take. -/
  arrived : List Frame
  receive : ReceivePc
  /-- Everything pushed to the inbox so far. -/
  inbox : List Message
  /-- Everything pushed to the outbox so far. -/
  pushed : List Message
  /-- For every `ReceiveMessages` that returned: its result, and whether it has pushed anything. -/
  returns : List (Bool × Bool)
  deriving DecidableEq

/-- The steps; `eagain` says whether `errno` is `EAGAIN`. -/
inductive PipeAct
  | sendMessage (message : Message)
  | sendMessages
  | send (eagain : Bool)
  | arrive
  | receiveMessages
  | recv (eagain : Bool)

namespace Pipe

/-- A fresh connection. -/
def init : Pipe := ⟨[], .idle, [], [], .idle, [], [], []⟩

/-- One `send`, then the sender's own work up to its next call. -/
def sendStep (s : Pipe) (eagain : Bool) : Option Pipe :=
  match s.send, s.outbox with
  | .sendType, m :: _ =>
    some { s with
      wire := s.wire ++ [typeFrame m]
      send := if (Frame.result (typeFrame m) eagain).isSome then .sendData else .idle }
  | .sendData, m :: outbox =>
    if (Frame.result (dataFrame m) eagain).isSome then some { s with
      wire := s.wire ++ [dataFrame m]
      outbox
      send := if outbox = [] then .idle else .sendType }
    else some { s with wire := s.wire ++ [dataFrame m], send := .idle }
  | _, _ => none

/-- `ReceiveMessages` returns. -/
def finish (s : Pipe) (call : Call) : Pipe :=
  { s with
    receive := .idle
    returns := s.returns ++ [(call.received, decide (call.inboxSize < s.inbox.length))] }

/-- One `recv`, then the receiver's own work up to its next call. -/
def recvStep (s : Pipe) (eagain : Bool) : Option Pipe :=
  match s.receive, s.arrived with
  | .recvType call, [] => some (s.finish call)
  | .recvType call, frame :: arrived =>
    match frame.result eagain with
    | none => some { s with arrived, receive := .idle }
    | some rc =>
      if 0 < rc then some { s with arrived, receive := .recvData (cStr frame) call }
      else some ({ s with arrived }.finish call)
  | .recvData messageType call, frame :: arrived =>
    match frame.result eagain with
    | none => some { s with arrived, receive := .idle }
    | some rc =>
      if 0 < rc then some { s with
        arrived
        inbox := s.inbox ++ [.new messageType.bytes (frame.take rc.toNat)]
        receive := .recvType { call with received := true } }
      else some { s with arrived, receive := .recvType call }
  -- without `NN_DONTWAIT` the call waits for the next frame
  | .recvData _ _, [] => none
  | .idle, _ => none

/-- One step. The outbox is locked while `SendMessages` runs. -/
def step (s : Pipe) : PipeAct → Option Pipe
  | .sendMessage m =>
    if s.send = .idle then some { s with outbox := s.outbox ++ [m], pushed := s.pushed ++ [m] }
    else none
  | .sendMessages =>
    if s.send = .idle then some { s with send := if s.outbox = [] then .idle else .sendType }
    else none
  | .send eagain => s.sendStep eagain
  | .arrive =>
    match s.wire with
    | [] => none
    | frame :: wire => some { s with wire, arrived := s.arrived ++ [frame] }
  | .receiveMessages =>
    if s.receive = .idle then some { s with receive := .recvType ⟨false, s.inbox.length⟩ }
    else none
  | .recv eagain => s.recvStep eagain

/-- Everything pushed has been sent, has arrived and has been taken from the socket. -/
def Drained (s : Pipe) : Prop := s.outbox = [] ∧ s.wire = [] ∧ s.arrived = []

/-- Decoding undoes encoding: once everything has arrived the inbox shows what was pushed, and every
`ReceiveMessages` returned true exactly if it pushed something. -/
def Decodes (s : Pipe) : Prop :=
  (s.Drained → s.inbox.map Message.view = s.pushed.map Message.view) ∧
    ∀ r ∈ s.returns, r.1 = r.2

end Pipe

/-! ## What the socket returns -/

theorem Frame.result_of_pos {frame : Frame} (h : 0 < cInt frame.length) (eagain : Bool) :
    frame.result eagain = some (cInt frame.length) :=
  if_neg h.not_gt

theorem Frame.isSome_result_true (frame : Frame) : (frame.result true).isSome = true := by
  by_cases hneg : cInt frame.length < 0
  · rw [Frame.result, if_pos hneg]; rfl
  · rw [Frame.result, if_neg hneg]; rfl

/-- The receiver tells by the sign what the length of the frame is as an `int`. -/
theorem Frame.result_pos_iff {frame : Frame} {eagain : Bool} {rc : ℤ}
    (hr : frame.result eagain = some rc) : 0 < rc ↔ 0 < cInt frame.length := by
  unfold Frame.result at hr
  split_ifs at hr with hneg he
  · have := Option.some.inj hr
    omega
  · rw [Option.some.inj hr]

/-- With a stale `EAGAIN` no transferred frame raises an exception. -/
theorem Frame.result_of_not_pos {frame : Frame} (h : ¬ 0 < cInt frame.length) :
    ∃ rc, frame.result true = some rc ∧ ¬ 0 < rc := by
  unfold Frame.result
  by_cases hneg : cInt frame.length < 0
  · exact ⟨-1, by rw [if_pos hneg]; rfl, by decide⟩
  · exact ⟨cInt frame.length, if_neg hneg, h⟩

namespace Pipe

variable {s : Pipe} {call : Call} {frame : Frame} {arrived : List Frame} {messageType : CString}
  {eagain : Bool} {rc : ℤ}

theorem recvStep_nil (hp : s.receive = .recvType call) (ha : s.arrived = []) :
    s.recvStep eagain = some (s.finish call) := by
  simp only [recvStep, hp, ha]

/-- A type frame is taken. -/
theorem recvStep_type (hp : s.receive = .recvType call) (ha : s.arrived = frame :: arrived)
    (hr : frame.result eagain = some rc) (hpos : 0 < rc) :
    s.recvStep eagain = some { s with arrived, receive := .recvData (cStr frame) call } := by
  simp only [recvStep, hp, ha, hr, if_pos hpos]

/-- A frame taken for no frame ends the call. -/
theorem recvStep_type_of_not_pos (hp : s.receive = .recvType call)
    (ha : s.arrived = frame :: arrived) (hr : frame.result eagain = some rc) (hpos : ¬ 0 < rc) :
    s.recvStep eagain = some ({ s with arrived }.finish call) := by
  simp only [recvStep, hp, ha, hr, if_neg hpos]

/-- A data frame is taken and the message pushed. -/
theorem recvStep_data (hp : s.receive = .recvData messageType call)
    (ha : s.arrived = frame :: arrived) (hr : frame.result eagain = some rc) (hpos : 0 < rc) :
    s.recvStep eagain = some { s with
      arrived
      inbox := s.inbox ++ [.new messageType.bytes (frame.take rc.toNat)]
      receive := .recvType { call with received := true } } := by
  simp only [recvStep, hp, ha, hr, if_pos hpos]

/-- A data frame taken for no data is dropped with its type. -/
theorem recvStep_data_of_not_pos (hp : s.receive = .recvData messageType call)
    (ha : s.arrived = frame :: arrived) (hr : frame.result eagain = some rc) (hpos : ¬ 0 < rc) :
    s.recvStep eagain = some { s with arrived, receive := .recvType call } := by
  simp only [recvStep, hp, ha, hr, if_neg hpos]

/-- The effects of one step. -/
inductive Effect (s : Pipe) : PipeAct → Pipe → Prop
  | sendMessage (hs : s.send = .idle) (m : Message) :
    Effect s (.sendMessage m) { s with outbox := s.outbox ++ [m], pushed := s.pushed ++ [m] }
  | sendMessages (hs : s.send = .idle) :
    Effect s .sendMessages { s with send := if s.outbox = [] then .idle else .sendType }
  | sendType {m : Message} {outbox : List Message} (hp : s.send = .sendType)
    (ho : s.outbox = m :: outbox) (eagain : Bool) :
    Effect s (.send eagain) { s with
      wire := s.wire ++ [typeFrame m]
      send := if (Frame.result (typeFrame m) eagain).isSome then .sendData else .idle }
  | sendData {m : Message} {outbox : List Message} {eagain : Bool} (hp : s.send = .sendData)
    (ho : s.outbox = m :: outbox) (hr : (Frame.result (dataFrame m) eagain).isSome) :
    Effect s (.send eagain) { s with
      wire := s.wire ++ [dataFrame m]
      outbox
      send := if outbox = [] then .idle else .sendType }
  | sendDataThrows {m : Message} {outbox : List Message} {eagain : Bool} (hp : s.send = .sendData)
    (ho : s.outbox = m :: outbox) (hr : Frame.result (dataFrame m) eagain = none) :
    Effect s (.send eagain) { s with wire := s.wire ++ [dataFrame m], send := .idle }
  | arrive {frame : Frame} {wire : List Frame} (hw : s.wire = frame :: wire) :
    Effect s .arrive { s with wire, arrived := s.arrived ++ [frame] }
  | receiveMessages (hr : s.receive = .idle) :
    Effect s .receiveMessages { s with receive := .recvType ⟨false, s.inbox.length⟩ }
  | recvNothing {call : Call} {eagain : Bool} (hp : s.receive = .recvType call)
    (ha : s.arrived = []) : Effect s (.recv eagain) (s.finish call)
  | recvThrows {frame : Frame} {arrived : List Frame} {eagain : Bool} (hp : s.receive ≠ .idle)
    (ha : s.arrived = frame :: arrived) (hr : frame.result eagain = none) :
    Effect s (.recv eagain) { s with arrived, receive := .idle }
  | recvType {call : Call} {frame : Frame} {arrived : List Frame} {eagain : Bool}
    (hp : s.receive = .recvType call) (ha : s.arrived = frame :: arrived)
    (h0 : 0 < cInt frame.length) :
    Effect s (.recv eagain) { s with arrived, receive := .recvData (cStr frame) call }
  | recvNoType {call : Call} {frame : Frame} {arrived : List Frame} {eagain : Bool}
    (hp : s.receive = .recvType call) (ha : s.arrived = frame :: arrived)
    (h0 : ¬ 0 < cInt frame.length) :
    Effect s (.recv eagain) ({ s with arrived }.finish call)
  | recvData {messageType : CString} {call : Call} {frame : Frame} {arrived : List Frame}
    {eagain : Bool} (hp : s.receive = .recvData messageType call)
    (ha : s.arrived = frame :: arrived) (h0 : 0 < cInt frame.length) :
    Effect s (.recv eagain) { s with
      arrived
      inbox := s.inbox ++ [.new messageType.bytes (frame.take (cInt frame.length).toNat)]
      receive := .recvType { call with received := true } }
  | recvNoData {messageType : CString} {call : Call} {frame : Frame} {arrived : List Frame}
    {eagain : Bool} (hp : s.receive = .recvData messageType call)
    (ha : s.arrived = frame :: arrived) (h0 : ¬ 0 < cInt frame.length) :
    Effect s (.recv eagain) { s with arrived, receive := .recvType call }

theorem effect_send {s' : Pipe} (h : s.sendStep eagain = some s') : Effect s (.send eagain) s' := by
  unfold sendStep at h
  split at h
  · next m outbox hp ho =>
    rw [← Option.some.inj h]
    exact .sendType hp ho eagain
  · next m outbox hp ho =>
    by_cases hr : (Frame.result (dataFrame m) eagain).isSome
    · rw [if_pos hr] at h
      rw [← Option.some.inj h]
      exact .sendData hp ho hr
    · rw [if_neg hr] at h
      rw [← Option.some.inj h]
      exact .sendDataThrows hp ho (Option.not_isSome_iff_eq_none.mp hr)
  · cases h

theorem effect_recv {s' : Pipe} (h : s.recvStep eagain = some s') : Effect s (.recv eagain) s' := by
  cases hp : s.receive with
  | idle => simp only [recvStep, hp, reduceCtorEq] at h
  | recvType call =>
    cases ha : s.arrived with
    | nil =>
      rw [recvStep_nil hp ha] at h
      rw [← Option.some.inj h]
      exact .recvNothing hp ha
    | cons frame arrived =>
      simp only [recvStep, hp, ha] at h
      cases hr : frame.result eagain with
      | none =>
        simp only [hr] at h
        rw [← Option.some.inj h]
        exact .recvThrows (by rw [hp]; exact ReceivePc.noConfusion) ha hr
      | some rc =>
        simp only [hr] at h
        split_ifs at h with h0
        · rw [← Option.some.inj h]
          exact .recvType hp ha ((Frame.result_pos_iff hr).mp h0)
        · rw [← Option.some.inj h]
          exact .recvNoType hp ha fun hc => h0 ((Frame.result_pos_iff hr).mpr hc)
  | recvData messageType call =>
    cases ha : s.arrived with
    | nil => simp only [recvStep, hp, ha, reduceCtorEq] at h
    | cons frame arrived =>
      simp only [recvStep, hp, ha] at h
      cases hr : frame.result eagain with
      | none =>
        simp only [hr] at h
        rw [← Option.some.inj h]
        exact .recvThrows (by rw [hp]; exact ReceivePc.noConfusion) ha hr
      | some rc =>
        simp only [hr] at h
        split_ifs at h with h0
        · have hpos := (Frame.result_pos_iff hr).mp h0
          rw [Frame.result_of_pos hpos] at hr
          rw [← Option.some.inj h, ← Option.some.inj hr]
          exact .recvData hp ha hpos
        · rw [← Option.some.inj h]
          exact .recvNoData hp ha fun hc => h0 ((Frame.result_pos_iff hr).mpr hc)

/-- **What one step does.** -/
theorem step_effect {s' : Pipe} {a : PipeAct} (h : s.step a = some s') : Effect s a s' := by
  cases a with
  | sendMessage m =>
    simp only [step] at h
    split_ifs at h with hs
    rw [← Option.some.inj h]
    exact .sendMessage hs m
  | sendMessages =>
    by_cases hs : s.send = .idle
    · rw [step, if_pos hs] at h
      rw [← Option.some.inj h]
      exact .sendMessages hs
    · rw [step, if_neg hs] at h
      cases h
  | send eagain => exact effect_send h
  | arrive =>
    cases hw : s.wire with
    | nil => simp only [step, hw, reduceCtorEq] at h
    | cons frame wire =>
      simp only [step, hw] at h
      rw [← Option.some.inj h]
      exact .arrive hw
  | receiveMessages =>
    simp only [step] at h
    split_ifs at h with hr
    rw [← Option.some.inj h]
    exact .receiveMessages hr
  | recv eagain => exact effect_recv h

end Pipe

/-- Both frames have a positive length as an `int`, and that of the data is its own. -/
def Transmissible (m : Message) : Prop :=
  0 < cInt (typeFrame m).length ∧ 0 < m.getDataSize ∧ m.getDataSize < 2 ^ 31

end Petunia.Nanomsg
