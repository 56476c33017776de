import Petunia.Inprocess.Conservation
import Petunia.Inprocess.Locks

set_option autoImplicit false

/-!
# What the mutexes protect

An outbox is read and written inside `m_send_lock` of its endpoint, an inbox inside its
`m_receive_lock`, and a static map inside its own lock.

* `Shared`, `Thread.accesses`: the objects that the next step of a thread reads or writes;
* **`Thread.lock_mem_holds`**: it holds their mutexes;
* `Works`: a change of the process that leaves the other objects alone (`works_sendMessages`,
  `works_receiveMessages`, `works_pop`, …: the changes that the threads make).
-/

namespace Petunia.Inprocess

open CTypes Lts LockOrder Queues

/-! ## Objects -/

/-- What the threads share: the queues of an endpoint and the static maps. -/
inductive Shared
  | outbox (i : ℕ)
  | inbox (i : ℕ)
  | map (d : Direction)
  deriving DecidableEq

/-- The mutex that protects the object. -/
def Shared.lock : Shared → Lock
  | .outbox i => .send i
  | .inbox i => .receive i
  | .map d => .channel d

/-- What the next step of `SendMessage` uses. -/
def CallPc.accesses (c : Call) : CallPc → List Shared
  | .push => [.outbox c.target]
  | .acquire | .notify | .release => []

/-- What the next step of the send thread of endpoint `i` uses. -/
def SendPc.accesses (i : ℕ) : SendPc → List Shared
  | .evalPredicate => [.outbox i]
  | .sendMessages d => [.outbox i, .map d]
  | .acquire | .block | .blocked | .acquireChannel | .releaseChannel _ | .release => []

/-- What the next step of the receive thread of endpoint `i` uses. -/
def ReceivePc.accesses (i : ℕ) : ReceivePc → List Shared
  | .receiveMessages d => [.inbox i, .map d]
  | .distribute => [.inbox i]
  | .calling c pc => pc.accesses c
  | .acquire | .acquireChannel | .releaseChannel _ _ | .listening | .release => []

/-- What the construction of a queue uses. -/
def EnsurePc.accesses (d : Direction) : EnsurePc → List Shared
  | .insert => [.map d]
  | .acquire | .release => []

/-- What the next step of a user thread uses. -/
def UserPc.accesses : UserPc → List Shared
  | .calling c pc => pc.accesses c
  | .ensuring _ _ d pc => pc.accesses d
  | .idle | .startMQThread _ _ => []

/-- What the next step of a thread uses. -/
def Thread.accesses : ∀ t : Thread, t.Pc → List Shared
  | .send i, pc => SendPc.accesses i pc
  | .receive i, pc => ReceivePc.accesses i pc
  | .user _, pc => UserPc.accesses pc

theorem CallPc.lock_mem_holds {c : Call} {pc : CallPc} {x : Shared} (h : x ∈ pc.accesses c) :
    x.lock ∈ pc.holds c := by
  cases pc with
  | push =>
    rw [List.mem_singleton.mp h]
    exact List.mem_cons_self
  | acquire | notify | release => cases h

/-- **An object is used inside its lock.** -/
theorem Thread.lock_mem_holds {t : Thread} {pc : t.Pc} {x : Shared} (h : x ∈ t.accesses pc) :
    x.lock ∈ t.holds pc := by
  cases t with
  | send i =>
    cases (pc : SendPc) with
    | evalPredicate =>
      rw [List.mem_singleton.mp h]
      exact List.mem_cons_self
    | sendMessages d =>
      rcases List.mem_cons.mp h with rfl | h
      · exact List.mem_cons_of_mem _ List.mem_cons_self
      · rw [List.mem_singleton.mp h]
        exact List.mem_cons_self
    | acquire | block | blocked | acquireChannel | releaseChannel | release => cases h
  | receive i =>
    cases (pc : ReceivePc) with
    | receiveMessages d =>
      rcases List.mem_cons.mp h with rfl | h
      · exact List.mem_cons_of_mem _ List.mem_cons_self
      · rw [List.mem_singleton.mp h]
        exact List.mem_cons_self
    | distribute =>
      rw [List.mem_singleton.mp h]
      exact List.mem_cons_self
    | calling c pc => exact List.mem_append_left _ (CallPc.lock_mem_holds h)
    | acquire | acquireChannel | releaseChannel | listening | release => cases h
  | user n =>
    cases (pc : UserPc) with
    | calling c pc => exact CallPc.lock_mem_holds (c := c) h
    | ensuring channel role d pc =>
      cases pc with
      | insert =>
        rw [List.mem_singleton.mp h]
        exact List.mem_cons_self
      | acquire | release => cases h
    | idle | startMQThread => cases h

/-! ## Work on the objects -/

variable {w w' : World Message} {objects : List Shared} {i : ℕ} {e e' : Endpoint (Entry Message)}

/-- The channel is in the map of the direction. -/
def World.Has (w : World Message) (d : Direction) (c : Bytes) : Prop :=
  ((w.maps.get d).lookup c).isSome

/-- The object is the same. -/
def Unchanged (w w' : World Message) : Shared → Prop
  | .outbox i => ∀ e : Endpoint (Entry Message), w.endpoints[i]? = some e →
      ∃ e' : Endpoint (Entry Message), w'.endpoints[i]? = some e' ∧ e'.outbox = e.outbox
  | .inbox i => ∀ e : Endpoint (Entry Message), w.endpoints[i]? = some e →
      ∃ e' : Endpoint (Entry Message), w'.endpoints[i]? = some e' ∧ e'.inbox = e.inbox
  | .map d => w'.maps.get d = w.maps.get d

/-- A change of the process that uses only the given objects. -/
structure Works (w : World Message) (objects : List Shared) (w' : World Message) : Prop where
  frame : ∀ x, x ∉ objects → Unchanged w w' x
  has : ∀ d c, w.Has d c → w'.Has d c
  roles : ∀ (i : ℕ) (e : Endpoint (Entry Message)), w.endpoints[i]? = some e →
    ∃ e' : Endpoint (Entry Message), w'.endpoints[i]? = some e' ∧ e'.sends = e.sends ∧
      e'.receives = e.receives
  conserves : w.Conserves → w'.Conserves

/-- Work on the queues of one endpoint, and on maps. -/
theorem works_set {maps : Maps (Entry Message)} {pushed : List (Entry Message)}
    (he : w.endpoints[i]? = some e) (hr : e'.connectionRole = e.connectionRole)
    (ho : .outbox i ∈ objects ∨ e'.outbox = e.outbox)
    (hi : .inbox i ∈ objects ∨ e'.inbox = e.inbox)
    (hm : ∀ d, .map d ∈ objects ∨ maps.get d = w.maps.get d)
    (hh : ∀ d c, w.Has d c → ((maps.get d).lookup c).isSome)
    (hc : w.Conserves → World.Conserves ⟨maps, w.endpoints.set i e', pushed⟩) :
    Works w objects ⟨maps, w.endpoints.set i e', pushed⟩ where
  frame x hx := by
    cases x with
    | outbox j =>
      intro f hf
      by_cases hj : i = j
      · subst hj
        obtain rfl := Option.some.inj (he.symm.trans hf)
        exact ⟨e', getElem?_set_self he _, ho.resolve_left hx⟩
      · exact ⟨f, getElem?_set_of_ne hf hj, rfl⟩
    | inbox j =>
      intro f hf
      by_cases hj : i = j
      · subst hj
        obtain rfl := Option.some.inj (he.symm.trans hf)
        exact ⟨e', getElem?_set_self he _, hi.resolve_left hx⟩
      · exact ⟨f, getElem?_set_of_ne hf hj, rfl⟩
    | map d => exact (hm d).resolve_left hx
  has := hh
  roles j f hf := by
    by_cases hj : i = j
    · subst hj
      obtain rfl := Option.some.inj (he.symm.trans hf)
      refine ⟨e', getElem?_set_self he _, ?_, ?_⟩
      · rw [Endpoint.sends, Endpoint.sends, hr]
      · rw [Endpoint.receives, Endpoint.receives, hr]
    · exact ⟨f, getElem?_set_of_ne hf hj, rfl, rfl⟩
  conserves := hc

/-- An exchange with the shared queue of a channel. -/
theorem has_set_exchanged {maps : Maps (Entry Message)} {d : Direction} {channel : Bytes}
    {queue queue' : List (Entry Message)} {map : Messages (Entry Message)}
    (hx : Exchanged (maps.get d) channel queue queue' map) {d' : Direction} {c : Bytes}
    (h : ((maps.get d').lookup c).isSome) : (((maps.set map d).get d').lookup c).isSome := by
  by_cases hd : d' = d
  · subst hd
    rw [Maps.get_set_self]
    exact hx.isSome_lookup h
  · rwa [Maps.get_set_of_ne maps map hd]

/-- The push of `SendMessage`. -/
theorem works_sendMessage {m : Message} (h : w.sendMessage i m = some w') :
    Works w [.outbox i] w' := by
  have hc := fun hw => World.conserves_step (a := .sendMessage i m) hw h
  cases World.step_effect (a := .sendMessage i m) h with
  | sendMessage he m =>
    exact works_set he rfl (.inl List.mem_cons_self) (.inr rfl) (fun _ => .inr rfl)
      (fun _ _ h => h) hc

/-- `SendMessages` of the medium. -/
theorem works_sendMessages {r : Bool × World Message} (he : w.endpoints[i]? = some e)
    (h : w.sendMessages i = some r) : Works w [.outbox i, .map e.sends] r.2 := by
  have hstep : w.step (.sendMessages i) = some r.2 := by rw [World.step, h]; rfl
  have hc := fun hw => World.conserves_step hw hstep
  generalize r.2 = w' at hstep hc
  cases World.step_effect hstep with
  | @sendMessages _ f hf outbox map hx =>
    obtain rfl := Option.some.inj (he.symm.trans hf)
    refine works_set he rfl (.inl List.mem_cons_self) (.inr rfl) (fun d => ?_)
      (fun _ _ h => has_set_exchanged hx h) hc
    by_cases hd : d = e.sends
    · exact .inl (by simp [hd])
    · exact .inr (Maps.get_set_of_ne _ _ hd)

/-- `ReceiveMessages` of the medium. -/
theorem works_receiveMessages {r : Bool × World Message} (he : w.endpoints[i]? = some e)
    (h : w.receiveMessages i = some r) : Works w [.inbox i, .map e.receives] r.2 := by
  have hstep : w.step (.receiveMessages i) = some r.2 := by rw [World.step, h]; rfl
  have hc := fun hw => World.conserves_step hw hstep
  generalize r.2 = w' at hstep hc
  cases World.step_effect hstep with
  | @receiveMessages _ f hf inbox map hx =>
    obtain rfl := Option.some.inj (he.symm.trans hf)
    refine works_set he rfl (.inr rfl) (.inl List.mem_cons_self) (fun d => ?_)
      (fun _ _ h => has_set_exchanged hx h) hc
    by_cases hd : d = e.receives
    · exact .inl (by simp [hd])
    · exact .inr (Maps.get_set_of_ne _ _ hd)

/-- One turn of `Distribute`. -/
theorem works_pop {m : Entry Message} {inbox : List (Entry Message)}
    (he : w.endpoints[i]? = some e) (hi : e.inbox = m :: inbox) :
    Works w [.inbox i] { w with
      endpoints := w.endpoints.set i { e with inbox, dispatched := e.dispatched ++ [m] } } := by
  refine works_set he rfl (.inr rfl) (.inl List.mem_cons_self) (fun _ => .inr rfl)
    (fun _ _ h => h) fun hw => ⟨?_, hw.serials⟩
  rw [← hw.contents, ← add_zero w.contents]
  refine World.contents_set 0 he ?_
  simp only [Endpoint.contents, hi, ← Multiset.coe_add, ← Multiset.cons_coe, Multiset.coe_nil,
    ← Multiset.singleton_add]
  abel

/-- The construction of a queue. -/
theorem works_ensure (w : World Message) (channel : Bytes) (d : Direction) :
    Works w [.map d] { w with
      maps := w.maps.set (ensureChannelExists channel (w.maps.get d)) d } where
  frame x hx := by
    cases x with
    | outbox j => exact fun f hf => ⟨f, hf, rfl⟩
    | inbox j => exact fun f hf => ⟨f, hf, rfl⟩
    | map d' => exact Maps.get_set_of_ne _ _ fun h => hx (by simp [h])
  has d' c h := by
    by_cases hd : d' = d
    · subst hd
      rw [World.Has, Maps.get_set_self, lookup_ensureChannelExists_of_isSome h]
      exact h
    · rwa [World.Has, Maps.get_set_of_ne _ _ hd]
  roles j f hf := ⟨f, hf, rfl, rfl⟩
  conserves hw := by
    refine ⟨?_, hw.serials⟩
    rw [← hw.contents]
    refine congrArg ((w.endpoints.map Endpoint.contents).sum + ·) ?_
    have := w.maps.contents_set (ensureChannelExists channel (w.maps.get d)) d
    rw [contents_ensureChannelExists] at this
    exact add_right_cancel this

theorem ensureChannelExists_of_isSome {α : Type*} {channel : Bytes} {map : Messages α}
    (h : (map.lookup channel).isSome) : ensureChannelExists channel map = map :=
  if_neg (Option.isSome_iff_ne_none.mp h)

/-- With both queues there a construction leaves the maps alone. -/
theorem get_maps_construct {channel : Bytes} {role : ConnectionRole} (hs : w.Has .toServer channel)
    (hc : w.Has .toClient channel) (d : Direction) :
    (w.construct channel role).maps.get d = w.maps.get d := by
  cases d with
  | toServer => exact ensureChannelExists_of_isSome hs
  | toClient => exact ensureChannelExists_of_isSome hc

/-- The end of a construction. -/
theorem works_construct {channel : Bytes} {role : ConnectionRole} (hs : w.Has .toServer channel)
    (hc : w.Has .toClient channel) : Works w [] (w.construct channel role) where
  frame x _ := by
    cases x with
    | outbox j =>
      exact fun f hf => ⟨f, by rw [World.construct, List.getElem?_append_left
        (List.getElem?_eq_some_iff.mp hf).1, hf], rfl⟩
    | inbox j =>
      exact fun f hf => ⟨f, by rw [World.construct, List.getElem?_append_left
        (List.getElem?_eq_some_iff.mp hf).1, hf], rfl⟩
    | map d => exact get_maps_construct hs hc d
  has d c h := by
    rw [World.Has, get_maps_construct hs hc d]
    exact h
  roles j f hf := ⟨f, by rw [World.construct, List.getElem?_append_left
    (List.getElem?_eq_some_iff.mp hf).1, hf], rfl, rfl⟩
  conserves hw := World.conserves_step (a := .construct channel role) hw rfl

end Petunia.Inprocess
