import Petunia.Nanomsg.Stream

set_option autoImplicit false

/-!
# The messages that the wire loses

One run sends everything, lets everything arrive and then receives until no frame is left. What it
decodes is a function of the frames, and it is what was sent only if all messages are
`Transmissible`.

* `drain`: what the receiver makes of a list of frames (`length_drain`: at most one message for two
  frames; **`view_drain_iff`**: on the frames of messages);
* `exists_flushed`, `exists_drained`, `exists_all_drained`: the run;
* **`decodes_iff`**: every run decodes what was pushed if and only if all messages are
  `Transmissible`; `empty_data_lost` is a run that loses a message without data.
-/

namespace Petunia.Nanomsg

open CTypes Lts

/-- What the receiver pushes for a list of frames. -/
def drain : List Frame → List Message
  | [] | [_] => []
  | typeFrame :: dataFrame :: rest =>
    if 0 < cInt typeFrame.length then
      if 0 < cInt dataFrame.length then
        .new (cStr typeFrame).bytes (dataFrame.take (cInt dataFrame.length).toNat) :: drain rest
      else drain rest
    else drain (dataFrame :: rest)

/-- A message takes two frames. -/
theorem length_drain (fs : List Frame) : 2 * (drain fs).length ≤ fs.length := by
  fun_induction drain fs with
  | case1 => simp
  | case2 => simp
  | case3 f g rest hf hg ih => simp only [List.length_cons]; omega
  | case4 f g rest hf hg ih => simp only [List.length_cons]; omega
  | case5 f g rest hf ih => simp only [List.length_cons] at ih ⊢; omega

theorem length_flatMap_frames (ms : List Message) : (ms.flatMap frames).length = 2 * ms.length := by
  induction ms with
  | nil => rfl
  | cons m ms ih =>
    rw [List.flatMap_cons, List.length_append, ih, List.length_cons, frames]
    simp only [List.length_cons, List.length_nil]
    omega

/-- A frame that is dropped leaves too few for all messages. -/
theorem view_drain_ne {fs : List Frame} {m : Message} {ms : List Message}
    (h : fs.length ≤ 2 * ms.length + 1) :
    (drain fs).map Message.view ≠ (m :: ms).map Message.view := by
  intro heq
  have hlen := congrArg List.length heq
  have := length_drain fs
  simp only [List.length_map, List.length_cons] at hlen
  omega

/-- **What is decoded of the frames of messages.** -/
theorem view_drain_iff (ms : List Message) :
    (drain (ms.flatMap frames)).map Message.view = ms.map Message.view ↔
      ∀ m ∈ ms, Transmissible m := by
  induction ms with
  | nil => simp [drain]
  | cons m ms ih =>
    have hframes : (m :: ms).flatMap frames =
        typeFrame m :: dataFrame m :: ms.flatMap frames := rfl
    have hlen := length_flatMap_frames ms
    rw [hframes, drain, List.forall_mem_cons]
    split_ifs with ht hd
    · have hview : (Message.new (cStr (typeFrame m)).bytes
          ((dataFrame m).take (cInt (dataFrame m).length).toNat)).view =
          (m.getType, (dataFrame m).take (cInt (dataFrame m).length).toNat) := by
        rw [cStr_typeFrame, Message.view_new]
      have hhead : (m.getType, (dataFrame m).take (cInt (dataFrame m).length).toNat) = m.view ↔
          Transmissible m := by
        rw [Message.view, Prod.mk.injEq, and_iff_right rfl]
        refine (take_cInt_eq_iff hd.le).trans ⟨fun hlt => ?_, fun hm => ?_⟩
        · have hc := cInt_of_nonneg hlt hd.le
          exact ⟨ht, by rw [hc] at hd; exact Int.natCast_pos.mp hd, cInt_eq_iff.mp hc⟩
        · have : (dataFrame m).length < 2 ^ 31 := hm.2.2
          omega
      rw [List.map_cons, List.map_cons, List.cons_eq_cons, hview, hhead, ih]
    · refine iff_of_false (view_drain_ne (by omega)) fun h => hd h.1.dataFrame_pos
    · refine iff_of_false (view_drain_ne ?_) fun h => ht h.1.1
      rw [List.length_cons]
      omega

namespace Pipe

/-- The receiver takes all frames that have arrived. -/
theorem exists_drained (fs : List Frame) : ∀ (s : Pipe) (c : Call), s.receive = .recvType c →
    s.arrived = fs → ∃ s', Reaches step s s' ∧ s'.arrived = [] ∧ s'.inbox = s.inbox ++ drain fs ∧
      s'.outbox = s.outbox ∧ s'.wire = s.wire ∧ s'.pushed = s.pushed := by
  fun_induction drain fs with
  | case1 =>
    intro s c hp ha
    exact ⟨s, .refl s, ha, (List.append_nil _).symm, rfl, rfl, rfl⟩
  | case2 f =>
    intro s c hp ha
    by_cases hf : 0 < cInt f.length
    · have h1 := recvStep_type hp ha (Frame.result_of_pos hf true) hf
      exact ⟨_, .single (a := .recv true) h1, rfl, (List.append_nil _).symm, rfl, rfl, rfl⟩
    · obtain ⟨rc, hrc, hpos⟩ := Frame.result_of_not_pos hf
      exact ⟨_, .single (a := .recv true) (recvStep_type_of_not_pos hp ha hrc hpos), rfl,
        (List.append_nil _).symm, rfl, rfl, rfl⟩
  | case3 f g rest hf hg ih =>
    intro s c hp ha
    have h1 := recvStep_type hp ha (Frame.result_of_pos hf true) hf
    have h2 := recvStep_data (s := { s with arrived := g :: rest, receive := .recvData (cStr f) c })
      rfl rfl (Frame.result_of_pos hg true) hg
    obtain ⟨s', hs', ha', hi, ho, hw, hpu⟩ := ih
      { s with
        arrived := rest
        inbox := s.inbox ++ [.new (cStr f).bytes (g.take (cInt g.length).toNat)]
        receive := .recvType { c with received := true } } _ rfl rfl
    refine ⟨s', (Reaches.single (a := .recv true) h1).trans
      ((Reaches.single (a := .recv true) h2).trans hs'), ha', ?_, ho, hw, hpu⟩
    rw [hi, List.append_assoc]
    rfl
  | case4 f g rest hf hg ih =>
    intro s c hp ha
    obtain ⟨rc, hrc, hpos⟩ := Frame.result_of_not_pos hg
    have h1 := recvStep_type hp ha (Frame.result_of_pos hf true) hf
    have h2 := recvStep_data_of_not_pos
      (s := { s with arrived := g :: rest, receive := .recvData (cStr f) c }) rfl rfl hrc hpos
    obtain ⟨s', hs', ha', hi, ho, hw, hpu⟩ := ih
      { s with arrived := rest, receive := .recvType c } _ rfl rfl
    exact ⟨s', (Reaches.single (a := .recv true) h1).trans
      ((Reaches.single (a := .recv true) h2).trans hs'), ha', hi, ho, hw, hpu⟩
  | case5 f g rest hf ih =>
    intro s c hp ha
    -- the call ends, and the next one starts with the data frame
    obtain ⟨rc, hrc, hpos⟩ := Frame.result_of_not_pos hf
    have h1 := recvStep_type_of_not_pos hp ha hrc hpos
    have h2 : ({ s with arrived := g :: rest }.finish c).step .receiveMessages =
        some { ({ s with arrived := g :: rest }.finish c) with
          receive := .recvType ⟨false, s.inbox.length⟩ } := rfl
    obtain ⟨s', hs', ha', hi, ho, hw, hpu⟩ := ih
      { ({ s with arrived := g :: rest }.finish c) with
        receive := .recvType ⟨false, s.inbox.length⟩ } _ rfl rfl
    exact ⟨s', (Reaches.single (a := .recv true) h1).trans
      ((Reaches.single h2).trans hs'), ha', hi, ho, hw, hpu⟩

/-- The sender pushes messages. -/
theorem exists_pushed (ms : List Message) : ∀ s : Pipe, s.send = .idle →
    Reaches step s { s with outbox := s.outbox ++ ms, pushed := s.pushed ++ ms } := by
  induction ms with
  | nil =>
    intro s hs
    simpa using Reaches.refl s
  | cons m ms ih =>
    intro s hs
    have h1 : s.step (.sendMessage m) =
        some { s with outbox := s.outbox ++ [m], pushed := s.pushed ++ [m] } := if_pos hs
    have h2 := ih { s with outbox := s.outbox ++ [m], pushed := s.pushed ++ [m] } hs
    simpa [List.append_assoc] using (Reaches.single h1).trans h2

/-- `SendMessages` sends the front message. -/
theorem exists_sent_front {s : Pipe} {m : Message} {ms : List Message} (hs : s.send = .sendType)
    (ho : s.outbox = m :: ms) : Reaches step s { s with
      outbox := ms
      send := if ms = [] then .idle else .sendType
      wire := s.wire ++ frames m } := by
  have h1 : s.step (.send true) =
      some { s with wire := s.wire ++ [typeFrame m], send := .sendData } := by
    simp only [step, sendStep, hs, ho, Frame.isSome_result_true, if_true]
  have h2 : step { s with wire := s.wire ++ [typeFrame m], send := .sendData } (.send true) =
      some { s with
        outbox := ms
        send := if ms = [] then .idle else .sendType
        wire := s.wire ++ [typeFrame m] ++ [dataFrame m] } := by
    simp only [step, sendStep, ho, Frame.isSome_result_true, if_true]
  have h := (Reaches.single h1).trans (Reaches.single h2)
  rwa [List.append_assoc] at h

/-- `SendMessages` sends the whole outbox. -/
theorem exists_flushed (ms : List Message) : ∀ (s : Pipe) (m : Message), s.send = .sendType →
    s.outbox = m :: ms → Reaches step s
      { s with outbox := [], send := .idle, wire := s.wire ++ (m :: ms).flatMap frames } := by
  induction ms with
  | nil =>
    intro s m hs ho
    simpa using exists_sent_front hs ho
  | cons m' ms ih =>
    intro s m hs ho
    have h1 := exists_sent_front hs ho
    have h2 := ih
      { s with outbox := m' :: ms, send := .sendType, wire := s.wire ++ frames m } m' rfl rfl
    rw [if_neg (by simp)] at h1
    have h := h1.trans h2
    rwa [List.append_assoc] at h

/-- All frames arrive. -/
theorem exists_arrived (fs : List Frame) : ∀ s : Pipe, s.wire = fs →
    Reaches step s { s with wire := [], arrived := s.arrived ++ fs } := by
  induction fs with
  | nil =>
    intro s hw
    rw [List.append_nil, ← hw]
    exact .refl s
  | cons f fs ih =>
    intro s hw
    have h1 : s.step .arrive = some { s with wire := fs, arrived := s.arrived ++ [f] } := by
      simp only [step, hw]
    have h := (Reaches.single h1).trans (ih { s with wire := fs, arrived := s.arrived ++ [f] } rfl)
    simpa [List.append_assoc] using h

/-- **A run in which every message is sent and every frame taken.** -/
theorem exists_all_drained (ms : List Message) : ∃ s : Pipe, Reaches step init s ∧ s.pushed = ms ∧
    s.Drained ∧ s.inbox = drain (ms.flatMap frames) := by
  have h1 : Reaches step init { init with outbox := ms, pushed := ms } :=
    exists_pushed ms init rfl
  have h2 : Reaches step { init with outbox := ms, pushed := ms }
      { init with wire := ms.flatMap frames, pushed := ms } := by
    cases ms with
    | nil => exact .refl _
    | cons m ms =>
      have hs : step { init with outbox := m :: ms, pushed := m :: ms } .sendMessages =
          some { init with outbox := m :: ms, send := .sendType, pushed := m :: ms } := rfl
      exact (Reaches.single hs).trans (exists_flushed ms _ m rfl rfl)
  have h3 : Reaches step { init with wire := ms.flatMap frames, pushed := ms }
      { init with arrived := ms.flatMap frames, pushed := ms } := exists_arrived _ _ rfl
  have h4 : step { init with arrived := ms.flatMap frames, pushed := ms } .receiveMessages =
      some { init with
        arrived := ms.flatMap frames
        receive := .recvType ⟨false, 0⟩
        pushed := ms } := rfl
  obtain ⟨s, h5, ha, hi, ho, hw, hpu⟩ := exists_drained (ms.flatMap frames)
    { init with arrived := ms.flatMap frames, receive := .recvType ⟨false, 0⟩, pushed := ms }
    ⟨false, 0⟩ rfl rfl
  exact ⟨s, ((h1.trans h2).trans h3).trans ((Reaches.single h4).trans h5), hpu, ⟨ho, hw, ha⟩, hi⟩

/-- **The messages that survive.** Every run that pushes `ms`, under every arrival of the frames,
decodes it, if and only if every message of `ms` is `Transmissible`: it has data, fewer than
`2 ^ 31` bytes of it, and a type frame whose length is positive as an `int`. -/
theorem decodes_iff (ms : List Message) :
    (∀ as s, exec step init as = some s → s.pushed = ms → s.Decodes) ↔
      ∀ m ∈ ms, Transmissible m := by
  constructor
  · intro h
    obtain ⟨s, ⟨as, hs⟩, hpu, hd, hi⟩ := exists_all_drained ms
    rw [← view_drain_iff, ← hi, ← hpu]
    exact (h as s hs hpu).1 hd
  · intro ht as s hs hpu
    exact decodes_of_transmissible hs (by rw [hpu]; exact ht)

/-- **A message without data is lost**: the length `0` of its data frame is taken for no data. -/
theorem empty_data_lost :
    ∃ s, exec step init [.sendMessage (.new [116] []), .sendMessages, .send false, .send false,
        .arrive, .arrive, .receiveMessages, .recv false, .recv false, .recv false] = some s ∧
      s.Drained ∧ s.inbox = [] ∧ s.returns = [(false, false)] ∧ ¬ s.Decodes := by
  refine ⟨⟨[], .idle, [], [], .idle, [], [.new [116] []], [(false, false)]⟩, by decide +kernel,
    ⟨rfl, rfl, rfl⟩, rfl, rfl, fun h => ?_⟩
  have hview := h.1 ⟨rfl, rfl, rfl⟩
  exact absurd hview (by simp)

end Pipe

end Petunia.Nanomsg
