import Petunia.Nanomsg.Stream

set_option autoImplicit false

/-!
# One message on the wire

One message of any type and any data, sent over a fresh connection. Its frames may be sent again
after an exception, and a frame may be taken for no frame, so a data frame can be taken for a type.
But then no frame comes behind it, and nothing is pushed for it.

* `Stray`: a frame that the receiver would take for another type;
* `Pipe.Lone`, `lone_step`: no frame follows a stray one;
* **`getType_of_lone`**: whatever is received has the type of the message sent;
  `view_of_transmissible`: in a run of `Transmissible` messages each is received as it was sent.
-/

namespace Petunia.Nanomsg

open CTypes Lts

/-- The receiver would take the frame for a type that is not that of the message. -/
def Stray (m : Message) (frame : Frame) : Prop :=
  0 < cInt frame.length ∧ cStr frame ≠ m.getType

theorem not_stray_typeFrame (m : Message) : ¬ Stray m (typeFrame m) :=
  fun h => h.2 (cStr_typeFrame m)

namespace Pipe

/-- The frames that have been sent and not taken. -/
def flight (s : Pipe) : List Frame := s.arrived ++ s.wire

theorem flight_eq {s : Pipe} {frame : Frame} {arrived : List Frame}
    (ha : s.arrived = frame :: arrived) : s.flight = frame :: (arrived ++ s.wire) := by
  rw [flight, ha, List.cons_append]

/-- Nothing has been pushed: no frame is on its way, and the receiver has taken none. -/
structure Fresh (s : Pipe) : Prop where
  outbox : s.outbox = []
  flight : s.flight = []
  taken : s.receive.taken = []
  inbox : s.inbox = []

/-- Nothing but the message has been pushed. A stray frame is the last one of all, and a type taken
from a stray frame gets no data. -/
structure Lone (m : Message) (s : Pipe) : Prop where
  outbox : s.outbox = [] ∨ s.outbox = [m]
  last : ∀ f ∈ s.flight.dropLast, ¬ Stray m f
  sent : ∀ f ∈ s.flight, Stray m f → s.outbox = []
  taken : ∀ type call, s.receive = .recvData type call →
    type = m.getType ∨ (s.flight = [] ∧ s.outbox = [])
  inbox : ∀ x ∈ s.inbox, x.getType = m.getType

variable {s s' : Pipe} {m : Message}

/-- The same frames, outbox and receiver. -/
theorem Lone.of_flight (h : Lone m s) (hf : s'.flight = s.flight) (ho : s'.outbox = s.outbox)
    (hr : s'.receive = s.receive) (hi : s'.inbox = s.inbox) : Lone m s' where
  outbox := by rw [ho]; exact h.outbox
  last := by rw [hf]; exact h.last
  sent := by rw [hf, ho]; exact h.sent
  taken := by rw [hr, hf, ho]; exact h.taken
  inbox := by rw [hi]; exact h.inbox

/-- A frame is sent: as long as the outbox holds the message, no frame is stray. -/
theorem Lone.append (h : Lone m s) (hm : s.outbox = [m]) (frame : Frame)
    (hf : s'.flight = s.flight ++ [frame]) (ho : s'.outbox = [] ∨ s'.outbox = [m])
    (hs : Stray m frame → s'.outbox = []) (hr : s'.receive = s.receive)
    (hi : s'.inbox = s.inbox) : Lone m s' := by
  have hnone : ∀ f ∈ s.flight, ¬ Stray m f := fun f hf hst => by
    rw [h.sent f hf hst] at hm
    cases hm
  refine ⟨ho, ?_, fun f hfl hst => ?_, fun type call hd => .inl ?_, by rw [hi]; exact h.inbox⟩
  · rw [hf, List.dropLast_concat]
    exact hnone
  · rw [hf] at hfl
    rcases List.mem_append.mp hfl with hfl | hfl
    · exact absurd hst (hnone f hfl)
    · rw [List.mem_singleton.mp hfl] at hst
      exact hs hst
  · rcases h.taken type call (hr ▸ hd) with htype | ⟨-, hempty⟩
    · exact htype
    · rw [hempty] at hm
      cases hm

/-- A frame is taken: what stands behind it is not stray but for the last frame. -/
theorem Lone.tail (h : Lone m s) {frame : Frame} (hf : s.flight = frame :: s'.flight)
    (ho : s'.outbox = s.outbox)
    (hd : ∀ type call, s'.receive = .recvData type call → type = cStr frame ∧
      0 < cInt frame.length)
    (hi : ∀ x ∈ s'.inbox, x.getType = m.getType) : Lone m s' := by
  refine ⟨by rw [ho]; exact h.outbox, fun f hfl => h.last f ?_, fun f hfl hst => ?_,
    fun type call hr => ?_, hi⟩
  · rw [hf, List.dropLast_cons_of_ne_nil (fun he => by simp [he] at hfl)]
    exact List.mem_cons_of_mem _ hfl
  · rw [ho]
    exact h.sent f (by rw [hf]; exact List.mem_cons_of_mem _ hfl) hst
  · obtain ⟨rfl, hpos⟩ := hd type call hr
    by_cases htype : cStr frame = m.getType
    · exact .inl htype
    · -- the frame is stray, so it was the last one
      have hst : Stray m frame := ⟨hpos, htype⟩
      refine .inr ⟨?_, by rw [ho]; exact h.sent frame (by rw [hf]; exact List.mem_cons_self) hst⟩
      by_contra hne
      refine h.last frame ?_ hst
      rw [hf, List.dropLast_cons_of_ne_nil hne]
      exact List.mem_cons_self

theorem Lone.eq_of_cons (h : Lone m s) {m' : Message} {outbox : List Message}
    (ho : s.outbox = m' :: outbox) : m' = m ∧ outbox = [] := by
  rcases h.outbox with h0 | h1
  · rw [h0] at ho
    cases ho
  · rw [h1] at ho
    cases ho
    exact ⟨rfl, rfl⟩

/-- **One step keeps a lone message alone**, as long as no other one is pushed. -/
theorem lone_step {a : PipeAct} (hs : Lone m s) (ha : a.pushes = []) (h : s.step a = some s') :
    Lone m s' := by
  cases step_effect h with
  | sendMessage hidle m' => cases ha
  | sendMessages hidle => exact hs.of_flight rfl rfl rfl rfl
  | @sendType m' outbox hp ho eagain =>
    obtain ⟨rfl, rfl⟩ := hs.eq_of_cons ho
    refine hs.append ho (typeFrame m') ?_ hs.outbox ?_ rfl rfl
    · simp only [flight, List.append_assoc]
    · exact fun hst => absurd hst (not_stray_typeFrame m')
  | @sendData m' outbox eagain hp ho hr =>
    -- the message is popped, be its data frame stray or not
    obtain ⟨rfl, rfl⟩ := hs.eq_of_cons ho
    refine hs.append ho (dataFrame m') ?_ (.inl rfl) (fun _ => rfl) rfl rfl
    simp only [flight, List.append_assoc]
  | @sendDataThrows m' outbox eagain hp ho hr =>
    obtain ⟨rfl, rfl⟩ := hs.eq_of_cons ho
    refine hs.append ho (dataFrame m') ?_ hs.outbox (fun hst => ?_) rfl rfl
    · simp only [flight, List.append_assoc]
    · rw [Frame.result_of_pos hst.1] at hr
      cases hr
  | arrive hw =>
    refine hs.of_flight ?_ rfl rfl rfl
    simp [flight, hw]
  | receiveMessages hidle =>
    exact ⟨hs.outbox, hs.last, hs.sent, fun type call => ReceivePc.noConfusion, hs.inbox⟩
  | recvNothing hp hempty =>
    exact ⟨hs.outbox, hs.last, hs.sent, fun type call => ReceivePc.noConfusion, hs.inbox⟩
  | recvThrows hp harrived hr =>
    exact hs.tail (flight_eq harrived) rfl (fun type call => ReceivePc.noConfusion) hs.inbox
  | recvType hp harrived h0 =>
    refine hs.tail (flight_eq harrived) rfl (fun type call hd => ?_) hs.inbox
    cases hd
    exact ⟨rfl, h0⟩
  | recvNoType hp harrived h0 =>
    exact hs.tail (flight_eq harrived) rfl (fun type call => ReceivePc.noConfusion) hs.inbox
  | @recvData type call frame arrived eagain hp harrived h0 =>
    -- a frame is left, so the type is that of the message
    have htype : type = m.getType := by
      refine (hs.taken type call hp).resolve_right fun hempty => ?_
      rw [flight_eq harrived] at hempty
      cases hempty.1
    refine hs.tail (flight_eq harrived) rfl (fun type call => ReceivePc.noConfusion) fun x hx => ?_
    rcases List.mem_append.mp hx with hx | hx
    · exact hs.inbox x hx
    · rw [List.mem_singleton.mp hx, Message.getType_new, htype]
  | recvNoData hp harrived h0 =>
    exact hs.tail (flight_eq harrived) rfl (fun type call => ReceivePc.noConfusion) hs.inbox

/-- A push on a fresh connection. -/
theorem Fresh.lone (h : Fresh s) (m : Message) :
    Lone m { s with outbox := s.outbox ++ [m], pushed := s.pushed ++ [m] } := by
  have hempty : ∀ f, f ∉ s.flight := fun f hf => by rw [h.flight] at hf; cases hf
  refine ⟨.inr (by rw [h.outbox]; rfl), fun f hf => absurd (List.dropLast_subset _ hf) (hempty f),
    fun f hf => absurd hf (hempty f), fun type call hd => ?_, fun x hx => ?_⟩
  · have htaken := h.taken
    change s.receive = _ at hd
    rw [hd] at htaken
    cases htaken
  · change x ∈ s.inbox at hx
    rw [h.inbox] at hx
    cases hx

theorem fresh_step {a : PipeAct} (hs : Fresh s) (hpush : a.pushes = [])
    (h : s.step a = some s') : Fresh s' := by
  obtain ⟨harrived, hwire⟩ : s.arrived = [] ∧ s.wire = [] := List.append_eq_nil_iff.mp hs.flight
  cases step_effect h with
  | sendMessage hidle m => cases hpush
  | sendMessages hidle => exact ⟨hs.outbox, hs.flight, hs.taken, hs.inbox⟩
  | sendType hp ho | sendData hp ho hr | sendDataThrows hp ho hr => cases hs.outbox.symm.trans ho
  | arrive hw => cases hwire.symm.trans hw
  | receiveMessages hidle => exact ⟨hs.outbox, hs.flight, rfl, hs.inbox⟩
  | recvNothing hp ha => exact ⟨hs.outbox, hs.flight, rfl, hs.inbox⟩
  | recvThrows hp ha hr | recvType hp ha h0 | recvNoType hp ha h0 | recvData hp ha h0
  | recvNoData hp ha h0 =>
    cases harrived.symm.trans ha

/-- Until a second message is pushed, the connection is fresh or carries a lone message. -/
theorem fresh_or_lone {as : List PipeAct} (h : exec step init as = some s) :
    (s.pushed = [] → Fresh s) ∧ ∀ m, s.pushed = [m] → Lone m s := by
  refine exec_invariant (I := fun s => (s.pushed = [] → Fresh s) ∧ ∀ m, s.pushed = [m] → Lone m s)
    (fun s a s' hs hstep => ?_) h
    ⟨fun _ => ⟨rfl, rfl, rfl, rfl⟩, fun m hm => absurd hm (by simp [init])⟩
  have hpushed := pushed_step hstep
  cases ha : a.pushes with
  | nil =>
    rw [ha, List.append_nil] at hpushed
    rw [hpushed]
    exact ⟨fun h0 => fresh_step (hs.1 h0) ha hstep, fun m hm => lone_step (hs.2 m hm) ha hstep⟩
  | cons x xs =>
    cases a with
    | sendMessage m' =>
      refine ⟨fun h0 => by simp [hpushed, PipeAct.pushes] at h0, fun m hm => ?_⟩
      -- the message is the first one
      obtain ⟨h0, rfl⟩ : s.pushed = [] ∧ m' = m := by
        simpa [hpushed, PipeAct.pushes, List.append_eq_singleton_iff] using hm
      cases step_effect hstep with
      | sendMessage hidle => exact (hs.1 h0).lone m'
    | _ => cases ha

/-- **The type of what is received** for a message that is sent alone, whatever its type and its
data. -/
theorem getType_of_lone {as : List PipeAct} (h : exec step init as = some s) {x : Message}
    (hm : s.pushed = [m]) (hx : x ∈ s.inbox) : x.getType = m.getType :=
  ((fresh_or_lone h).2 m hm).inbox x hx

/-- **What is received** for a message of a run in which all are `Transmissible`. -/
theorem view_of_transmissible {as : List PipeAct} (h : exec step init as = some s)
    (ht : ∀ m ∈ s.pushed, Transmissible m) {x : Message} {k : ℕ} (hm : s.pushed[k]? = some m)
    (hx : s.inbox[k]? = some x) : x.view = m.view := by
  obtain ⟨ms, -, hview, -⟩ := (streams_of_transmissible h ht).rest
  have hk := congrArg (·[k]?) hview
  have hlt : k < (s.inbox.map Message.view).length := by
    rw [List.length_map]
    exact (List.getElem?_eq_some_iff.mp hx).1
  simp only [List.getElem?_map, hm, List.getElem?_append_left hlt, hx, Option.map_some,
    Option.some.injEq] at hk
  exact hk.symm

end Pipe

end Petunia.Nanomsg
