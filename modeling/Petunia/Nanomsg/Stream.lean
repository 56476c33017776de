import Petunia.Nanomsg.Wire

set_option autoImplicit false

/-!
# Which messages survive the wire

The receiver takes a frame for the end of a batch, or for no data, by the sign of its length. So the
pairing of type and data frames is kept exactly as long as both lengths are positive as an `int`.

* `Pipe.pending`, `Pipe.Streams`: the frames still to be decoded belong to the messages that the
  inbox does not show yet (`streams_recvType`, `streams_recvData`: what a waiting receiver gets);
* **`streams_step`**, `streams_exec`: kept by every step while all pushed messages are
  `Transmissible`;
* **`Streams.decodes`**, `decodes_of_transmissible`: every run of such messages decodes what was
  pushed.
-/

namespace Petunia.Nanomsg

open CTypes Lts

/-- The messages that a step pushes. -/
def PipeAct.pushes : PipeAct → List Message
  | .sendMessage m => [m]
  | _ => []

/-- The two frames of a message. -/
def frames (m : Message) : List Frame := [typeFrame m, dataFrame m]

theorem cStr_typeFrame (m : Message) : cStr (typeFrame m) = m.getType :=
  cStr_terminated m.getType []

theorem Transmissible.cInt_dataFrame {m : Message} (h : Transmissible m) :
    cInt (dataFrame m).length = (dataFrame m).length := cInt_of_lt h.2.2

theorem Transmissible.dataFrame_pos {m : Message} (h : Transmissible m) :
    0 < cInt (dataFrame m).length := by
  have := h.2.1
  rw [h.cInt_dataFrame]
  rw [Message.getDataSize_eq] at this
  exact Int.natCast_pos.mpr this

/-- The frames that the sender has still to send. -/
def SendPc.toSend : SendPc → List Message → List Frame
  | .sendData, m :: outbox => dataFrame m :: outbox.flatMap frames
  | _, outbox => outbox.flatMap frames

theorem SendPc.toSend_of_ne {pc : SendPc} (h : pc ≠ .sendData) (outbox : List Message) :
    pc.toSend outbox = outbox.flatMap frames := by
  unfold toSend
  split
  · contradiction
  · rfl

/-- The type frame that a call has taken without its data frame. -/
def ReceivePc.taken : ReceivePc → List Frame
  | .recvData messageType _ => [messageType.bytes ++ [0]]
  | _ => []

/-- The locals of the running `ReceiveMessages`. -/
def ReceivePc.call : ReceivePc → Option Call
  | .idle => none
  | .recvType call | .recvData _ call => some call

namespace Pipe

/-- The frames whose messages the inbox does not show yet. -/
def pending (s : Pipe) : List Frame :=
  s.receive.taken ++ s.arrived ++ s.wire ++ s.send.toSend s.outbox

/-- The pending frames are those of the messages not received yet. -/
structure Streams (s : Pipe) : Prop where
  outbox : ∀ m ∈ s.outbox, m ∈ s.pushed
  sending : s.send = .sendData → s.outbox ≠ []
  rest : ∃ ms : List Message, (∀ m ∈ ms, m ∈ s.pushed) ∧
    s.pushed.map Message.view = s.inbox.map Message.view ++ ms.map Message.view ∧
    s.pending = ms.flatMap frames
  call : ∀ c ∈ s.receive.call, c.received = decide (c.inboxSize < s.inbox.length) ∧
    c.inboxSize ≤ s.inbox.length
  returns : ∀ r ∈ s.returns, r.1 = r.2

theorem streams_init : Streams init :=
  ⟨by simp [init], by simp [init], ⟨[], by simp, rfl, rfl⟩, by simp [init, ReceivePc.call],
    by simp [init]⟩

/-- Only the sender's part changes, and no frame. -/
theorem Streams.of_pending {s s' : Pipe} (h : Streams s) (hp : s'.pushed = s.pushed)
    (ho : ∀ m ∈ s'.outbox, m ∈ s.outbox) (hs : s'.send = .sendData → s'.outbox ≠ [])
    (hpend : s'.pending = s.pending) (hr : s'.receive = s.receive) (hi : s'.inbox = s.inbox)
    (hret : s'.returns = s.returns) : Streams s' where
  outbox m hm := by rw [hp]; exact h.outbox m (ho m hm)
  sending := hs
  rest := by rw [hp, hi, hpend]; exact h.rest
  call := by rw [hr, hi]; exact h.call
  returns := by rw [hret]; exact h.returns

theorem streams_push {s : Pipe} (h : Streams s) (hs : s.send = .idle) (m : Message) :
    Streams { s with outbox := s.outbox ++ [m], pushed := s.pushed ++ [m] } := by
  obtain ⟨ms, hms, hview, hpend⟩ := h.rest
  refine ⟨fun x hx => ?_, fun hd => by simp, ⟨ms ++ [m], fun x hx => ?_, ?_, ?_⟩, h.call, h.returns⟩
  · rcases List.mem_append.mp hx with hx | hx
    · exact List.mem_append_left _ (h.outbox x hx)
    · exact List.mem_append_right _ hx
  · rcases List.mem_append.mp hx with hx | hx
    · exact List.mem_append_left _ (hms x hx)
    · exact List.mem_append_right _ hx
  · rw [List.map_append, hview, List.map_append, List.append_assoc]
  · have hne : s.send ≠ .sendData := by rw [hs]; exact SendPc.noConfusion
    rw [List.flatMap_append, ← hpend]
    simp only [pending, SendPc.toSend_of_ne hne, List.flatMap_append, List.append_assoc]

/-- A `ReceiveMessages` returns what it has recorded. -/
theorem streams_finish {s : Pipe} {c : Call} (hs : Streams s) (hp : s.receive = .recvType c) :
    Streams (s.finish c) := by
  refine ⟨hs.outbox, hs.sending, ?_, by simp [finish, ReceivePc.call], fun r hr => ?_⟩
  · have hpend : (s.finish c).pending = s.pending := by
      simp only [pending, finish, hp, ReceivePc.taken]
    rw [hpend]
    exact hs.rest
  · rcases List.mem_append.mp hr with hr | hr
    · exact hs.returns r hr
    · rw [List.mem_singleton.mp hr]
      exact (hs.call c (by rw [hp]; rfl)).1

/-- A receiver that waits for a type gets one. -/
theorem streams_recvType {s : Pipe} {c : Call} {frame : Frame} {arrived : List Frame}
    (hs : Streams s) (ht : ∀ m ∈ s.pushed, Transmissible m) (hp : s.receive = .recvType c)
    (ha : s.arrived = frame :: arrived) : 0 < cInt frame.length ∧
      Streams { s with arrived, receive := .recvData (cStr frame) c } := by
  obtain ⟨ms, hms, hview, hpend⟩ := hs.rest
  -- the frames left start with that of a type
  cases ms with
  | nil => simp [pending, hp, ha, ReceivePc.taken] at hpend
  | cons m ms =>
    simp only [pending, hp, ha, ReceivePc.taken, List.nil_append, List.cons_append,
      List.flatMap_cons, frames, List.cons.injEq] at hpend
    obtain ⟨rfl, hpend⟩ := hpend
    refine ⟨(ht m (hms m List.mem_cons_self)).1, hs.outbox, hs.sending,
      ⟨m :: ms, hms, hview, ?_⟩, ?_, hs.returns⟩
    · simp only [pending, ReceivePc.taken, cStr_typeFrame, List.flatMap_cons, frames]
      rw [List.cons_append, List.nil_append, List.cons_append, List.cons_append, hpend]
      rfl
    · have := hs.call c (by rw [hp]; rfl)
      simpa [ReceivePc.call] using this

/-- A receiver that has a type gets its data. -/
theorem streams_recvData {s : Pipe} {messageType : CString} {c : Call} {frame : Frame}
    {arrived : List Frame} (hs : Streams s) (ht : ∀ m ∈ s.pushed, Transmissible m)
    (hp : s.receive = .recvData messageType c) (ha : s.arrived = frame :: arrived) :
    0 < cInt frame.length ∧ Streams { s with
      arrived
      inbox := s.inbox ++ [.new messageType.bytes (frame.take (cInt frame.length).toNat)]
      receive := .recvType { c with received := true } } := by
  obtain ⟨ms, hms, hview, hpend⟩ := hs.rest
  cases ms with
  | nil => simp [pending, hp, ReceivePc.taken] at hpend
  | cons m ms =>
    simp only [pending, hp, ha, ReceivePc.taken, List.nil_append, List.cons_append,
      List.flatMap_cons, frames, List.cons.injEq] at hpend
    obtain ⟨htype, rfl, hpend⟩ := hpend
    have hm := ht m (hms m List.mem_cons_self)
    have hcall := hs.call c (by rw [hp]; rfl)
    refine ⟨hm.dataFrame_pos, hs.outbox, hs.sending,
      ⟨ms, fun x hx => hms x (List.mem_cons_of_mem m hx), ?_, ?_⟩, ?_, hs.returns⟩
    · have hm' : (Message.new messageType.bytes
          ((dataFrame m).take (cInt (dataFrame m).length).toNat)).view = m.view := by
        rw [hm.cInt_dataFrame, Int.toNat_natCast, List.take_length, Message.view_new]
        have ht' : messageType.bytes = m.getType.bytes := by
          simpa [typeFrame] using htype
        rw [CString.ext ht']
        rfl
      rw [hview, List.map_append, List.map_singleton, hm', List.map_cons, List.append_assoc]
      rfl
    · simp only [pending, ReceivePc.taken, List.nil_append, hpend]
    · simp only [ReceivePc.call, Option.mem_some_iff, forall_eq', List.length_append,
        List.length_singleton]
      have := hcall.2
      simp only [true_eq_decide_iff]
      omega

/-- **One step keeps the frames paired**: no frame is lost or taken for another one. -/
theorem streams_step {s s' : Pipe} {a : PipeAct} (hs : Streams s)
    (ht : ∀ m ∈ s.pushed, Transmissible m) (h : s.step a = some s') : Streams s' := by
  have hnext : ∀ outbox : List Message,
      (if outbox = [] then SendPc.idle else .sendType) ≠ .sendData := fun outbox => by
    split_ifs <;> exact SendPc.noConfusion
  have hfront : ∀ m outbox, s.outbox = m :: outbox → Transmissible m := fun m outbox ho =>
    ht m (hs.outbox m (by rw [ho]; exact List.mem_cons_self))
  cases step_effect h with
  | sendMessage hidle m => exact streams_push hs hidle m
  | sendMessages hidle =>
    have hne : s.send ≠ .sendData := by rw [hidle]; exact SendPc.noConfusion
    refine hs.of_pending rfl (fun _ hx => hx) (fun hd => absurd hd (hnext _)) ?_ rfl rfl rfl
    simp only [pending, SendPc.toSend_of_ne hne, SendPc.toSend_of_ne (hnext _)]
  | @sendType m outbox hp ho eagain =>
    rw [Frame.result_of_pos (hfront m outbox ho).1]
    refine hs.of_pending rfl (fun _ hx => hx) (fun _ => by rw [ho]; simp) ?_ rfl rfl rfl
    simp [pending, hp, ho, SendPc.toSend, frames]
  | @sendData m outbox eagain hp ho hr =>
    refine hs.of_pending rfl (fun x hx => by rw [ho]; exact List.mem_cons_of_mem m hx)
      (fun hd => absurd hd (hnext _)) ?_ rfl rfl rfl
    simp only [pending, SendPc.toSend_of_ne (hnext _), hp, ho]
    simp [SendPc.toSend]
  | @sendDataThrows m outbox eagain hp ho hr =>
    rw [Frame.result_of_pos (hfront m outbox ho).dataFrame_pos] at hr
    cases hr
  | arrive hw =>
    refine hs.of_pending rfl (fun _ hx => hx) hs.sending ?_ rfl rfl rfl
    simp [pending, hw]
  | receiveMessages hidle =>
    refine ⟨hs.outbox, hs.sending, ?_, by simp [ReceivePc.call], hs.returns⟩
    have hrest := hs.rest
    simp only [pending, hidle, ReceivePc.taken] at hrest ⊢
    exact hrest
  | recvNothing hp ha => exact streams_finish hs hp
  | recvThrows hp ha hr =>
    -- the frames of `Transmissible` messages are not taken for errors
    cases hpc : s.receive with
    | idle => exact absurd hpc hp
    | recvType c =>
      rw [Frame.result_of_pos (streams_recvType hs ht hpc ha).1] at hr
      cases hr
    | recvData type c =>
      rw [Frame.result_of_pos (streams_recvData hs ht hpc ha).1] at hr
      cases hr
  | recvType hp ha h0 => exact (streams_recvType hs ht hp ha).2
  | recvNoType hp ha h0 => exact absurd (streams_recvType hs ht hp ha).1 h0
  | recvData hp ha h0 => exact (streams_recvData hs ht hp ha).2
  | recvNoData hp ha h0 => exact absurd (streams_recvData hs ht hp ha).1 h0

/-- Only a push adds to what was pushed. -/
theorem Effect.pushed_eq {s s' : Pipe} {a : PipeAct} (h : s.Effect a s') :
    s'.pushed = s.pushed ++ a.pushes := by
  cases h with
  | sendMessage hidle m => rfl
  | _ => exact (List.append_nil _).symm

theorem pushed_step {s s' : Pipe} {a : PipeAct} (h : s.step a = some s') :
    s'.pushed = s.pushed ++ a.pushes :=
  (step_effect h).pushed_eq

/-- **The frames stay paired** as long as all messages are `Transmissible`. -/
theorem streams_exec {s t : Pipe} {as : List PipeAct} (h : exec step s as = some t)
    (hs : (∀ m ∈ s.pushed, Transmissible m) → Streams s) :
    (∀ m ∈ t.pushed, Transmissible m) → Streams t :=
  exec_invariant (I := fun s => (∀ m ∈ s.pushed, Transmissible m) → Streams s)
    (fun s a s' hs hstep ht' =>
      have ht : ∀ m ∈ s.pushed, Transmissible m := fun m hm => ht' m <| by
        rw [pushed_step hstep]; exact List.mem_append_left _ hm
      streams_step (hs ht) ht hstep)
    h hs

/-- **The frames stay paired** in every run of `Transmissible` messages. -/
theorem streams_of_transmissible {s : Pipe} {as : List PipeAct} (h : exec step init as = some s)
    (ht : ∀ m ∈ s.pushed, Transmissible m) : Streams s :=
  streams_exec h (fun _ => streams_init) ht

/-- What the inbox shows are the first messages pushed. -/
theorem Streams.view_prefix {s : Pipe} (hs : Streams s) :
    s.inbox.map Message.view <+: s.pushed.map Message.view := by
  obtain ⟨ms, -, hview, -⟩ := hs.rest
  exact ⟨ms.map Message.view, hview.symm⟩

/-- **Paired frames are decoded.** -/
theorem Streams.decodes {s : Pipe} (hs : Streams s) : s.Decodes := by
  refine ⟨fun ⟨ho, hw, ha⟩ => ?_, hs.returns⟩
  obtain ⟨ms, -, hview, hpend⟩ := hs.rest
  have htaken : s.pending.length ≤ 1 := by
    have hsend : s.send.toSend [] = [] := by cases s.send <;> rfl
    rw [pending, ho, hw, ha, hsend]
    cases s.receive <;> simp [ReceivePc.taken]
  -- a message not received yet would leave two frames
  cases ms with
  | nil => rw [hview, List.map_nil, List.append_nil]
  | cons m ms =>
    rw [hpend] at htaken
    simp [frames] at htaken

/-- **Every message is decoded**, in every run of `Transmissible` messages. -/
theorem decodes_of_transmissible {s : Pipe} {as : List PipeAct} (h : exec step init as = some s)
    (ht : ∀ m ∈ s.pushed, Transmissible m) : s.Decodes :=
  (streams_of_transmissible h ht).decodes

end Pipe

end Petunia.Nanomsg
