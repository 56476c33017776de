import Petunia.Nanomsg.Stream

set_option autoImplicit false

/-!
# Socket calls that fail

A `send` or `recv` may throw without transferring its frame; the queues stay as the call left them,
and `SendMessages` or `ReceiveMessages` is called again. The sender pops a message after both of its
frames and the receiver reads a type frame before it asks for the data frame, so a call that fails
between the two frames leaves one frame of the pair behind.

* `FaultyAct`, `Pipe.faultyStep`: the steps of the pipe and the failures;
* `FaultyAct.KeepsPairs`: the condition that no failure falls between the frames of a message;
* `Pipe.Framed`: the inbox shows sent messages, in order and without repetition;
* **`framed_of_keepsPairs`**: every such run is framed; `retry_sends_type_twice` is a run whose
  receiver pushes a message that nobody sent.
-/

namespace Petunia.Nanomsg

open CTypes Lts

/-- The steps of a pipe whose socket calls may fail. -/
inductive FaultyAct
  | act (a : PipeAct)
  /-- `send` throws and has sent no frame. -/
  | sendThrows
  /-- `recv` throws and has taken no frame. -/
  | recvThrows

namespace Pipe

/-- One step. An exception ends the call that it leaves, and the queues keep what they have. -/
def faultyStep (s : Pipe) : FaultyAct → Option Pipe
  | .act a => s.step a
  | .sendThrows => if s.send = .idle then none else some { s with send := .idle }
  | .recvThrows => if s.receive = .idle then none else some { s with receive := .idle }

/-- The inbox shows messages that were sent, in order and without repetition, each with its own type
and data. -/
def Framed (s : Pipe) : Prop := (s.inbox.map Message.view).Sublist (s.pushed.map Message.view)

end Pipe

/-- No failure falls between the two frames of a message, and every message pushed is
`Transmissible`. -/
def FaultyAct.KeepsPairs (s : Pipe) : FaultyAct → Prop
  | .act a => ∀ m ∈ a.pushes, Transmissible m
  | .sendThrows => s.send ≠ .sendData
  | .recvThrows => s.receive.taken = []

instance (m : Message) : Decidable (Transmissible m) :=
  inferInstanceAs (Decidable (_ ∧ _ ∧ _))

instance (s : Pipe) : ∀ a : FaultyAct, Decidable (a.KeepsPairs s)
  | .act a => inferInstanceAs (Decidable (∀ m ∈ a.pushes, Transmissible m))
  | .sendThrows => inferInstanceAs (Decidable (s.send ≠ .sendData))
  | .recvThrows => inferInstanceAs (Decidable (s.receive.taken = []))

namespace Pipe

/-- A `send` that fails before a type frame leaves the whole message to be sent. -/
theorem streams_sendThrows {s : Pipe} (hs : Streams s) (hp : s.send ≠ .sendData) :
    Streams { s with send := .idle } := by
  refine hs.of_pending rfl (fun _ hx => hx) (fun h => SendPc.noConfusion h) ?_ rfl rfl rfl
  have hidle : SendPc.idle ≠ .sendData := SendPc.noConfusion
  simp only [pending, SendPc.toSend_of_ne hp, SendPc.toSend_of_ne hidle]

/-- A `recv` that fails before a type frame leaves both frames. -/
theorem streams_recvThrows {s : Pipe} (hs : Streams s) (hp : s.receive.taken = []) :
    Streams { s with receive := .idle } := by
  refine ⟨hs.outbox, hs.sending, ?_, fun c hc => (nomatch hc), hs.returns⟩
  have hrest := hs.rest
  simp only [pending, hp] at hrest
  exact hrest

/-- **One step keeps the pairing of the frames**, if no failure falls between them. -/
theorem streams_faultyStep {s s' : Pipe} {a : FaultyAct}
    (hs : (∀ m ∈ s.pushed, Transmissible m) ∧ Streams s) (hC : a.KeepsPairs s)
    (h : s.faultyStep a = some s') : (∀ m ∈ s'.pushed, Transmissible m) ∧ Streams s' := by
  obtain ⟨ht, hs⟩ := hs
  cases a with
  | act a =>
    refine ⟨fun m hm => ?_, streams_step hs ht h⟩
    rw [pushed_step h] at hm
    rcases List.mem_append.mp hm with hm | hm
    · exact ht m hm
    · exact hC m hm
  | sendThrows =>
    simp only [faultyStep] at h
    split_ifs at h
    cases h
    exact ⟨ht, streams_sendThrows hs hC⟩
  | recvThrows =>
    simp only [faultyStep] at h
    split_ifs at h
    cases h
    exact ⟨ht, streams_recvThrows hs hC⟩

/-- **Framing survives failed calls** in every run in which none of them falls between the frames of
a message. -/
theorem framed_of_keepsPairs {s : Pipe} {as : List FaultyAct} (h : exec faultyStep init as = some s)
    (ha : Along faultyStep (fun s a => a.KeepsPairs s) init as) : s.Framed := by
  have hs := exec_invariant_along (fun _ _ _ => streams_faultyStep) h ha
    ⟨fun m hm => absurd hm List.not_mem_nil, streams_init⟩
  obtain ⟨ms, -, hview, -⟩ := hs.2.rest
  rw [Framed, hview]
  exact List.sublist_append_left _ _

/-- Both calls fail before the frames of a message, and it arrives. -/
theorem framed_of_keepsPairs_retry :
    Framed ⟨[], .idle, [], [], .recvType ⟨true, 0⟩, [.new [116] [1]], [.new [116] [1]], []⟩ :=
  framed_of_keepsPairs (show exec faultyStep init [.act (.sendMessage (.new [116] [1])),
      .act .sendMessages, .sendThrows, .act .sendMessages, .act (.send false), .act (.send false),
      .act .arrive, .act .arrive, .act .receiveMessages, .recvThrows, .act .receiveMessages,
      .act (.recv false), .act (.recv false)] = some _ from by decide +kernel) (by decide +kernel)

/-- **A message that nobody sent.** The `send` of the data frame fails; the retry sends the type
frame again, and the receiver takes it for the data. -/
theorem retry_sends_type_twice :
    ∃ s, exec faultyStep init [.act (.sendMessage (.new [116] [1])), .act .sendMessages,
        .act (.send false), .sendThrows, .act .sendMessages, .act (.send false), .act (.send false),
        .act .arrive, .act .arrive, .act .arrive, .act .receiveMessages, .act (.recv false),
        .act (.recv false)] = some s ∧
      s.inbox = [.new [116] [116, 0]] ∧ ¬ s.Framed :=
  ⟨⟨[], .idle, [], [[1]], .recvType ⟨true, 0⟩, [.new [116] [116, 0]], [.new [116] [1]], []⟩,
    by decide +kernel, rfl, by unfold Framed; decide⟩

/-- The receiver takes data for a type if the `recv` of a data frame fails. -/
example : (exec faultyStep init [.act (.sendMessage (.new [116] [1])),
    .act (.sendMessage (.new [117] [2])), .act .sendMessages, .act (.send false),
    .act (.send false), .act (.send false), .act .arrive, .act .arrive, .act .arrive,
    .act .receiveMessages, .act (.recv false), .recvThrows, .act .receiveMessages,
    .act (.recv false), .act (.recv false)]).map inbox = some [.new [1] [117, 0]] := by
  decide +kernel

end Pipe

end Petunia.Nanomsg
