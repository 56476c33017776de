import Petunia.Default.Link
import Petunia.Inprocess.Conservation
import Petunia.Inprocess.Isolation
import Petunia.Listeners
import Petunia.Nanomsg.Lone

set_option autoImplicit false

/-!
# Types from the sender to the listener

A type is any string for the constructor of a message, and any string is a name for `AddListener`.
In between it is a `const char *`: the wire, the table and the lookup of `Distribute` have it up to
its first `NUL`.

* `Medium`, `Transports`: what a peer receives for a message, in any run of each medium
  (**`getType_of_transports`**: its type is that of the message, as a C string);
* `Link.Traced`, `traced_exec`: which message a row stems from;
* `TypesKept`: a listener gets the messages of its name;
* **`types_kept_iff`**: when it does, and only those (`types_confused`: two types for one listener).
-/

namespace Petunia

open CTypes Lts Sql

/-- The subclasses of `IPCMedium`. -/
inductive Medium
  | inprocess
  | default
  | nanomsg
  deriving DecidableEq

/-- Some peer has `x` in its inbox for the message `m`: it has the number of the push of `m`, or, on
the wire, it came for the one message sent or in its place among messages that all survive. -/
def Transports (lim : Limits) : Medium → Message → Message → Prop
  | .inprocess, m, x => ∃ (as : List (Inprocess.Act Message)) (w : Inprocess.World Message),
      exec Inprocess.World.step .init as = some w ∧ ∃ e ∈ w.endpoints, ∃ y ∈ e.inbox,
        y.message = x ∧ w.pushed[y.serial]?.map Inprocess.Entry.message = some m
  | .default, m, x => ∃ (as : List LinkAct) (s : Link), exec (Link.step lim) .init as = some s ∧
      ∃ y ∈ s.inbox, y.val = x ∧ s.pushed[y.serial]?.map Tagged.val = some m
  | .nanomsg, m, x => ∃ (as : List Nanomsg.PipeAct) (s : Nanomsg.Pipe),
      exec Nanomsg.Pipe.step .init as = some s ∧ ((s.pushed = [m] ∧ x ∈ s.inbox) ∨
        ((∀ m' ∈ s.pushed, Nanomsg.Transmissible m') ∧
          ∃ k : ℕ, s.pushed[k]? = some m ∧ s.inbox[k]? = some x))

/-! ## The in-process medium -/

/-- **A message in an inbox is the one that was pushed.** -/
theorem Inprocess.World.getElem?_pushed {μ : Type*} {w : Inprocess.World μ}
    {as : List (Inprocess.Act μ)} (h : exec step init as = some w)
    {e : Inprocess.Endpoint (Inprocess.Entry μ)} (he : e ∈ w.endpoints)
    {y : Inprocess.Entry μ} (hy : y ∈ e.inbox) : w.pushed[y.serial]? = some y := by
  have hw : w.Conserves := exec_invariant (fun _ _ _ => conserves_step) h conserves_init
  have hi : w.Isolated := exec_invariant (fun _ _ _ => isolated_step) h isolated_init
  obtain ⟨j, hj⟩ := List.mem_iff_getElem?.mp ((hi.clean e he).inbox y hy).1
  -- the number of the push is its position
  have hserial := congrArg (·[j]?) hw.serials
  have hlt := (List.getElem?_eq_some_iff.mp hj).1
  simp only [List.getElem?_map, hj, Option.map_some, List.getElem?_range hlt,
    Option.some.injEq] at hserial
  rw [hserial, hj]

/-! ## The SQLite medium -/

namespace Link

/-- The message has the number and the type of one that was pushed. -/
def Traced (s : Link) (x : Tagged Message) : Prop :=
  ∃ m, s.pushed[x.serial]? = some m ∧ x.val.getType = m.val.getType

/-- Everything on its way or arrived is traced. -/
structure AllTraced (s : Link) : Prop where
  inbox : ∀ x ∈ s.inbox, s.Traced x
  unread : ∀ x ∈ s.unread, s.Traced x
  outbox : ∀ x ∈ s.outbox, s.Traced x

/-- One written message: what is read of its row stems from it. -/
theorem traced_write {lim : Limits} {n : ℕ} {s : Link} {t t' : MessageTable} {m : Tagged Message}
    (ht : n ≤ t.lastId ∧ ∀ x ∈ (t.after n).map (fun r => readRow r.val), s.Traced x)
    (hm : s.Traced m) (h : writeSendingMessage lim t m = some t') :
    n ≤ t'.lastId ∧ ∀ x ∈ (t'.after n).map (fun r => readRow r.val), s.Traced x := by
  obtain ⟨hn, x, hx, htype, hafter⟩ := after_writeSendingMessage ht.1 h
  have hxt : s.Traced x := by
    obtain ⟨m', hm', hmt⟩ := hm
    exact ⟨m', by rw [hx.1, hm'], htype.trans hmt⟩
  refine ⟨hn, fun y hy => ?_⟩
  rcases hafter with ⟨-, -, hafter⟩ | hafter
  · rw [hafter] at hy
    obtain ⟨z, hz, rfl⟩ := List.mem_map.mp hy
    unfold overwriteBy
    split_ifs
    · exact hxt
    · exact ht.2 z hz
  · rw [hafter] at hy
    rcases List.mem_append.mp hy with hy | hy
    · exact ht.2 y hy
    · rw [List.mem_singleton.mp hy]
      exact hxt

/-- A push gives no number a second time. -/
theorem Traced.push {s : Link} {x : Tagged Message} (h : s.Traced x) (m : Tagged Message)
    {outbox : List (Tagged Message)} :
    Traced { s with outbox, pushed := s.pushed ++ [m] } x := by
  obtain ⟨m', hm', ht⟩ := h
  exact ⟨m', by rw [List.getElem?_append_left (List.getElem?_eq_some_iff.mp hm').1, hm'], ht⟩

theorem traced_push {s : Link} (hs : s.AllTraced) (m : Message) : AllTraced { s with
    outbox := s.outbox ++ [⟨s.pushed.length, m⟩]
    pushed := s.pushed ++ [⟨s.pushed.length, m⟩] } := by
  refine ⟨fun x hx => (hs.inbox x hx).push _, fun x hx => (hs.unread x hx).push _, fun x hx => ?_⟩
  rcases List.mem_append.mp hx with hx | hx
  · exact (hs.outbox x hx).push _
  · rw [List.mem_singleton.mp hx]
    exact ⟨⟨s.pushed.length, m⟩, List.getElem?_concat_length, rfl⟩

/-- The flag is neither number nor type. -/
theorem traced_setOverwriteMode {lim : Limits} {s s' : Link} {i : ℕ} {b : Bool} (hs : s.AllTraced)
    (h : step lim s (.setOverwriteMode i b) = some s') : s'.AllTraced := by
  have hmap := map_outbox_setOverwriteMode h (fun m => (m.serial, m.val.getType)) fun _ => rfl
  have hs' := step_setOverwriteMode h
  refine ⟨by rw [hs']; exact hs.inbox, by rw [hs']; exact hs.unread, fun x hx => ?_⟩
  have hx' := List.mem_map_of_mem (f := fun m : Tagged Message => (m.serial, m.val.getType)) hx
  rw [hmap] at hx'
  obtain ⟨y, hy, he⟩ := List.mem_map.mp hx'
  obtain ⟨hserial, htype⟩ := Prod.mk.inj he
  obtain ⟨m, hm, hmt⟩ := hs.outbox y hy
  exact ⟨m, by rw [← hserial, hs']; exact hm, htype.symm.trans hmt⟩

/-- A transaction, message by message. -/
theorem traced_sendMessages {lim : Limits} {s : Link} (hb : s.Bounded) (hs : s.AllTraced)
    {t : MessageTable} (ht : exec (writeSendingMessage lim) s.table s.outbox = some t) :
    AllTraced { s with table := t, outbox := [] } := by
  have hwrite := exec_invariant_along (C := fun _ m => s.Traced m)
    (I := fun t : MessageTable => s.readUpTo ≤ t.lastId ∧
      ∀ x ∈ (t.after s.readUpTo).map (fun r : Row (Tagged MessageRow) => readRow r.val),
        s.Traced x)
    (fun t m t' hI hm hw => traced_write hI hm hw) ht
    (along_of_forall fun m hm _ => hs.outbox m hm) ⟨hb, hs.unread⟩
  exact ⟨hs.inbox, hwrite.2, fun x hx => absurd hx List.not_mem_nil⟩

/-- **No step changes the number or the type of a message on its way.** -/
theorem traced_step {lim : Limits} {s s' : Link} {a : LinkAct} (hs : s.Bounded ∧ s.AllTraced)
    (h : step lim s a = some s') : s'.Bounded ∧ s'.AllTraced := by
  obtain ⟨hb, hs⟩ := hs
  refine ⟨bounded_step hb h, ?_⟩
  cases a with
  | push m =>
    rw [step_push h]
    exact traced_push hs m
  | setOverwriteMode i b => exact traced_setOverwriteMode hs h
  | sendMessages =>
    obtain ⟨t, ht, rfl⟩ := step_sendMessages h
    exact traced_sendMessages hb hs ht
  | scan =>
    obtain ⟨ho, hp, -, hi, -⟩ := step_scan h
    have htraced : ∀ x, s.Traced x → s'.Traced x := fun x hx => by rw [Traced, hp]; exact hx
    refine ⟨fun x hx => htraced x ?_, by simp [unread_of_scan h], fun x hx => htraced x ?_⟩
    · rw [hi] at hx
      exact (List.mem_append.mp hx).elim (hs.inbox x) (hs.unread x)
    · rw [ho] at hx
      exact hs.outbox x hx
  | deleteOldMessages =>
    obtain ⟨ho, hp, hi, -, hu⟩ := step_deleteOldMessages h
    have htraced : ∀ x, s.Traced x → s'.Traced x := fun x hx => by rw [Traced, hp]; exact hx
    exact ⟨fun x hx => htraced x (hs.inbox x (hi ▸ hx)), fun x hx =>
      htraced x (hs.unread x (hu ▸ hx)), fun x hx => htraced x (hs.outbox x (ho ▸ hx))⟩

/-- **A received message has the type of the one whose number it carries.** -/
theorem traced_exec {lim : Limits} {s : Link} {as : List LinkAct} (h : exec (step lim) init as = some s) :
    s.AllTraced :=
  (exec_invariant (I := fun s : Link => s.Bounded ∧ s.AllTraced) (fun _ _ _ => traced_step) h
    ⟨Nat.zero_le _, by simp [init], by simp [init, unread, Table.empty, Table.after],
      by simp [init]⟩).2

end Link

/-! ## Any medium -/

/-- **Every medium carries the type as a C string**, whatever bytes the type and the data have. -/
theorem getType_of_transports {lim : Limits} {medium : Medium} {m x : Message}
    (h : Transports lim medium m x) : x.getType = m.getType := by
  cases medium with
  | inprocess =>
    obtain ⟨as, w, hw, e, he, y, hy, rfl, hm⟩ := h
    rw [Inprocess.World.getElem?_pushed hw he hy] at hm
    rw [Option.some.inj hm]
  | default =>
    obtain ⟨as, s, hs, y, hy, rfl, hm⟩ := h
    obtain ⟨m', hm', ht⟩ := (Link.traced_exec hs).inbox y hy
    rw [hm'] at hm
    rw [ht, Option.some.inj hm]
  | nanomsg =>
    obtain ⟨as, s, hs, ⟨hm, hx⟩ | ⟨ht, k, hm, hx⟩⟩ := h
    · exact Nanomsg.Pipe.getType_of_lone hs hm hx
    · exact congrArg Prod.fst (Nanomsg.Pipe.view_of_transmissible hs ht hm hx)

/-! ## Listeners of a name -/

variable {κ : Type*}

/-- The listener under `name` is called for a message received exactly if that was sent with the
type `name`, so never for two messages of different types. The pairs are the messages as they were
sent and as they were received. -/
structure TypesKept (calls : List (κ × Message)) (name : Bytes) (f : κ)
    (received : List (Message × Message)) : Prop where
  called : ∀ p ∈ received, ((f, p.2) ∈ calls ↔ name = p.1.msgType)
  apart : ∀ p ∈ received, ∀ q ∈ received, p.1.msgType ≠ q.1.msgType →
    ¬ ((f, p.2) ∈ calls ∧ (f, q.2) ∈ calls)

/-- The type has no `NUL` byte, or the name is neither the type nor its part before the first one. -/
def Unambiguous (type name : Bytes) : Prop :=
  (0 : UInt8) ∈ type → name ≠ type ∧ name ≠ (cStr type).bytes

instance (type name : Bytes) : Decidable (Unambiguous type name) :=
  inferInstanceAs (Decidable (_ → _))

/-- A name is looked up for a type exactly if it is the type. -/
theorem unambiguous_iff {type name : Bytes} :
    Unambiguous type name ↔ ((cStr type).bytes = name ↔ name = type) := by
  unfold Unambiguous
  by_cases h0 : (0 : UInt8) ∈ type
  · have hne : (cStr type).bytes ≠ type := fun h => bytes_cStr_eq_iff.mp h h0
    constructor
    · intro h
      exact iff_of_false (fun e => (h h0).2 e.symm) (h h0).1
    · intro h _
      refine ⟨fun e => hne ((h.mpr e).trans e), fun e => hne ?_⟩
      exact e.symm.trans (h.mp e.symm)
  · rw [bytes_cStr_eq_iff.mpr h0]
    exact iff_of_true (fun h => absurd h h0) eq_comm

/-- **When a listener gets the messages of its name, and only those.** For every medium, all types,
data and names, and any messages received: if and only if each type has no `NUL` byte, or the name
is neither the type nor its part before the first `NUL`. -/
theorem types_kept_iff {lim : Limits} {medium : Medium} {listeners : Listeners κ} {name : Bytes} {f : κ}
    {received : List (Message × Message)} (hf : Registered listeners name f)
    (hr : ∀ p ∈ received, Transports lim medium p.1 p.2) :
    TypesKept (distribute listeners (received.map Prod.snd)).calls name f received ↔
      ∀ p ∈ received, Unambiguous p.1.msgType name := by
  have hcall : ∀ p ∈ received, (f, p.2) ∈ (distribute listeners (received.map Prod.snd)).calls ↔
      (cStr p.1.msgType).bytes = name := by
    intro p hp
    rw [mem_calls_distribute, and_iff_right (List.mem_map_of_mem hp), hf,
      getType_of_transports (hr p hp)]
    rfl
  constructor
  · intro h p hp
    exact unambiguous_iff.mpr ((hcall p hp).symm.trans (h.called p hp))
  · intro h
    have hcalled : ∀ p ∈ received,
        (f, p.2) ∈ (distribute listeners (received.map Prod.snd)).calls ↔ name = p.1.msgType :=
      fun p hp => (hcall p hp).trans (unambiguous_iff.mp (h p hp))
    refine ⟨hcalled, fun p hp q hq hne hpq => hne ?_⟩
    exact ((hcalled p hp).mp hpq.1).symm.trans ((hcalled q hq).mp hpq.2)

/-- Two messages over the SQLite medium and a listener for the type of the first. -/
theorem types_kept_iff_pair :
    ∃ r, addListener (∅ : Listeners ℕ) [97] 0 = some r ∧
      TypesKept (distribute r.2 [.new [97] [1], .new [98] [2]]).calls [97] 0
        [(.new [97] [1], .new [97] [1]), (.new [98] [2], .new [98] [2])] := by
  have hf : Registered ((∅ : Listeners ℕ).insert [97] [0]) [97] 0 :=
    registered_addListener (show addListener ∅ [97] 0 = some (1, _) from rfl) fun k => by
      simp [listenersOf]
  have hr : ∀ p ∈ [(Message.new [97] [1], Message.new [97] [1]),
      (Message.new [98] [2], Message.new [98] [2])], Transports .default .default p.1 p.2 := by
    obtain ⟨s, hs, h⟩ : ∃ s ∈ exec (Link.step .default) .init [.push (.new [97] [1]),
        .push (.new [98] [2]), .sendMessages, .scan],
      ∀ p ∈ [(Message.new [97] [1], Message.new [97] [1]),
          (Message.new [98] [2], Message.new [98] [2])],
        ∃ y ∈ s.inbox, y.val = p.2 ∧ s.pushed[y.serial]?.map Tagged.val = some p.1 := by
      decide +kernel
    exact fun p hp => ⟨_, s, hs, h p hp⟩
  exact ⟨_, rfl, (types_kept_iff hf hr).mpr (by decide)⟩

/-- **Two types for one listener.** Over each medium a listener for `a` is called for the types
`a\0b` and `a\0c`. -/
theorem types_confused : ∃ r, addListener (∅ : Listeners ℕ) [97] 0 = some r ∧
    ∀ medium, ∃ x₁ x₂, Transports .default medium (.new [97, 0, 98] [1]) x₁ ∧
      Transports .default medium (.new [97, 0, 99] [2]) x₂ ∧
      (0, x₁) ∈ (distribute r.2 [x₁, x₂]).calls ∧ (0, x₂) ∈ (distribute r.2 [x₁, x₂]).calls ∧
      ¬ TypesKept (distribute r.2 [x₁, x₂]).calls [97] 0
        [(.new [97, 0, 98] [1], x₁), (.new [97, 0, 99] [2], x₂)] := by
  refine ⟨_, rfl, fun medium => ?_⟩
  cases medium with
  | inprocess =>
    obtain ⟨w, hw, h₁, h₂⟩ : ∃ w ∈ exec (Inprocess.World.step (μ := Message)) .init
        [.construct [99] .auto, .construct [99] .auto, .sendMessage 0 (.new [97, 0, 98] [1]),
          .sendMessage 0 (.new [97, 0, 99] [2]), .sendMessages 0, .receiveMessages 1],
      (∃ e ∈ w.endpoints, ∃ y ∈ e.inbox, y.message = .new [97, 0, 98] [1] ∧
        w.pushed[y.serial]?.map Inprocess.Entry.message = some (.new [97, 0, 98] [1])) ∧
      ∃ e ∈ w.endpoints, ∃ y ∈ e.inbox, y.message = .new [97, 0, 99] [2] ∧
        w.pushed[y.serial]?.map Inprocess.Entry.message = some (.new [97, 0, 99] [2]) := by
      decide +kernel
    refine ⟨_, _, ⟨_, w, hw, h₁⟩, ⟨_, w, hw, h₂⟩, by decide, by decide, fun h => ?_⟩
    exact absurd ((h.called _ List.mem_cons_self).mp (by decide)) (by decide)
  | default =>
    obtain ⟨s, hs, h₁, h₂⟩ : ∃ s ∈ exec (Link.step .default) .init
        [.push (.new [97, 0, 98] [1]), .push (.new [97, 0, 99] [2]), .sendMessages, .scan],
      (∃ y ∈ s.inbox, y.val = .new [97] [1] ∧
        s.pushed[y.serial]?.map Tagged.val = some (.new [97, 0, 98] [1])) ∧
      ∃ y ∈ s.inbox, y.val = .new [97] [2] ∧
        s.pushed[y.serial]?.map Tagged.val = some (.new [97, 0, 99] [2]) := by
      decide +kernel
    refine ⟨_, _, ⟨_, s, hs, h₁⟩, ⟨_, s, hs, h₂⟩, by decide, by decide, fun h => ?_⟩
    exact absurd ((h.called _ List.mem_cons_self).mp (by decide)) (by decide)
  | nanomsg =>
    obtain ⟨s, hs, ht, h₁, h₂⟩ : ∃ s ∈ exec Nanomsg.Pipe.step .init
        [.sendMessage (.new [97, 0, 98] [1]), .sendMessage (.new [97, 0, 99] [2]), .sendMessages,
          .send false, .send false, .send false, .send false, .arrive, .arrive, .arrive, .arrive,
          .receiveMessages, .recv false, .recv false, .recv false, .recv false],
      (∀ m ∈ s.pushed, 0 < cInt (Nanomsg.typeFrame m).length ∧ 0 < m.getDataSize ∧
        m.getDataSize < 2 ^ 31) ∧
      (s.pushed[0]? = some (.new [97, 0, 98] [1]) ∧ s.inbox[0]? = some (.new [97] [1])) ∧
      s.pushed[1]? = some (.new [97, 0, 99] [2]) ∧ s.inbox[1]? = some (.new [97] [2]) := by
      decide +kernel
    refine ⟨_, _, ⟨_, s, hs, .inr ⟨ht, 0, h₁⟩⟩, ⟨_, s, hs, .inr ⟨ht, 1, h₂⟩⟩, by decide, by decide,
      fun h => ?_⟩
    exact absurd ((h.called _ List.mem_cons_self).mp (by decide)) (by decide)

end Petunia
