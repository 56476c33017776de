import Petunia.Inprocess.Medium
import Petunia.Lib.Run

set_option autoImplicit false

/-!
# The endpoints of one process

Any number of endpoints over the in-process medium, constructed in any order on any channels. Each
call holds the lock of the map it uses, so one step is one call.

* `Entry`: a message of any type `μ` with the endpoint on which it was pushed and the number of the
  push; no function looks at these;
* `Endpoint`, `World`, `World.step`;
* `World.Effect`, **`World.step_effect`**: what one step can do.
-/

namespace Petunia.Inprocess

open CTypes Lts Queues

variable {α μ : Type*}

/-- A pushed message. -/
structure Entry (μ : Type*) where
  origin : ℕ
  serial : ℕ
  message : μ
  deriving DecidableEq

/-- A `Petunia` object over the in-process medium; `dispatched` holds what `Distribute` has
dispatched so far. -/
structure Endpoint (α : Type*) where
  channel : Bytes
  connectionRole : ConnectionRole
  resolved : connectionRole ≠ .auto
  outbox : List α
  inbox : List α
  dispatched : List α
  deriving DecidableEq

namespace Endpoint

/-- Everything an endpoint holds or has dispatched. -/
def contents (e : Endpoint α) : Multiset α := e.outbox + e.inbox + e.dispatched

/-- The map through which the endpoint sends. -/
def sends (e : Endpoint α) : Direction := sendMessagesMap e.connectionRole

/-- The map through which the endpoint receives. -/
def receives (e : Endpoint α) : Direction := receiveMessagesMap e.connectionRole

/-- `Distribute`: pop and dispatch until the inbox is empty. -/
def distribute (e : Endpoint α) : Endpoint α :=
  { e with inbox := [], dispatched := e.inbox.foldl (fun d m => d ++ [m]) e.dispatched }

theorem distribute_eq (e : Endpoint α) :
    e.distribute = { e with inbox := [], dispatched := e.dispatched ++ e.inbox } := by
  have h : ∀ (l d : List α), l.foldl (fun d m => d ++ [m]) d = d ++ l := by
    intro l
    induction l with
    | nil => intro d; simp
    | cons m l ih => intro d; rw [List.foldl_cons, ih, List.append_assoc]; rfl
  rw [distribute, h]

end Endpoint

/-- The process: the static maps, the endpoints by their order of construction, and everything
pushed so far. -/
structure World (μ : Type*) where
  maps : Maps (Entry μ)
  endpoints : List (Endpoint (Entry μ))
  pushed : List (Entry μ)

/-- The calls. -/
inductive Act (μ : Type*)
  | construct (channel : Bytes) (connectionRole : ConnectionRole)
  | sendMessage (i : ℕ) (message : μ)
  | sendMessages (i : ℕ)
  | receiveMessages (i : ℕ)
  | distribute (i : ℕ)

namespace World

/-- No endpoint has been constructed. -/
def init : World μ := ⟨.empty, [], []⟩

/-- A constructor with `InitializeRole`. -/
def construct (w : World μ) (channel : Bytes) (role : ConnectionRole) : World μ where
  maps := ⟨ensureChannelExists channel w.maps.toServer, ensureChannelExists channel w.maps.toClient⟩
  endpoints := w.endpoints ++ [{
    channel
    connectionRole := resolveRole w.maps channel role
    resolved := resolveRole_ne_auto w.maps channel role
    outbox := []
    inbox := []
    dispatched := [] }]
  pushed := w.pushed

/-- The endpoints after a construction: those before it and the new one, which is empty. -/
theorem getElem?_construct {w : World μ} {channel : Bytes} {role : ConnectionRole} {j : ℕ}
    {o : Endpoint (Entry μ)} (h : (w.construct channel role).endpoints[j]? = some o) :
    w.endpoints[j]? = some o ∨ (j = w.endpoints.length ∧ o = {
      channel
      connectionRole := resolveRole w.maps channel role
      resolved := resolveRole_ne_auto w.maps channel role
      outbox := []
      inbox := []
      dispatched := [] }) := by
  rw [construct, List.getElem?_append] at h
  split_ifs at h with hj
  · exact .inl h
  · rw [List.getElem?_singleton] at h
    split_ifs at h with h0
    exact .inr ⟨by omega, (Option.some.inj h).symm⟩

/-- `Petunia::SendMessage`. -/
def sendMessage (w : World μ) (i : ℕ) (message : μ) : Option (World μ) :=
  w.endpoints[i]?.map fun e =>
    let entry : Entry μ := ⟨i, w.pushed.length, message⟩
    { w with
      endpoints := w.endpoints.set i { e with outbox := e.outbox ++ [entry] }
      pushed := w.pushed ++ [entry] }

/-- `SendEnqueuedMessages`: its result and the process after it. -/
def sendMessages (w : World μ) (i : ℕ) : Option (Bool × World μ) :=
  w.endpoints[i]?.bind fun e =>
    (Inprocess.sendMessages (w.maps.get e.sends) e.channel e.outbox).map fun r =>
      (r.1, { w with
        maps := w.maps.set r.2.2 e.sends
        endpoints := w.endpoints.set i { e with outbox := r.2.1 } })

/-- `EnqueueReceivedMessages`: its result and the process after it. -/
def receiveMessages (w : World μ) (i : ℕ) : Option (Bool × World μ) :=
  w.endpoints[i]?.bind fun e =>
    (Inprocess.receiveMessages (w.maps.get e.receives) e.channel e.inbox).map fun r =>
      (r.1, { w with
        maps := w.maps.set r.2.2 e.receives
        endpoints := w.endpoints.set i { e with inbox := r.2.1 } })

/-- `Distribute`. -/
def distribute (w : World μ) (i : ℕ) : Option (World μ) :=
  w.endpoints[i]?.map fun e => { w with endpoints := w.endpoints.set i e.distribute }

/-- One call; `none` if the endpoint does not exist or a `find` returns `end()`. -/
def step (w : World μ) : Act μ → Option (World μ)
  | .construct channel role => some (w.construct channel role)
  | .sendMessage i message => w.sendMessage i message
  | .sendMessages i => (w.sendMessages i).map Prod.snd
  | .receiveMessages i => (w.receiveMessages i).map Prod.snd
  | .distribute i => w.distribute i

/-- The effects of one call. -/
inductive Effect (w : World μ) : Act μ → World μ → Prop
  | construct (channel : Bytes) (role : ConnectionRole) :
    Effect w (.construct channel role) (w.construct channel role)
  | sendMessage {i : ℕ} {e : Endpoint (Entry μ)} (he : w.endpoints[i]? = some e) (message : μ) :
    Effect w (.sendMessage i message) { w with
      endpoints := w.endpoints.set i
        { e with outbox := e.outbox ++ [⟨i, w.pushed.length, message⟩] }
      pushed := w.pushed ++ [⟨i, w.pushed.length, message⟩] }
  | sendMessages {i : ℕ} {e : Endpoint (Entry μ)} (he : w.endpoints[i]? = some e)
    {outbox : List (Entry μ)} {map : Messages (Entry μ)}
    (hx : Exchanged (w.maps.get e.sends) e.channel e.outbox outbox map) :
    Effect w (.sendMessages i) { w with
      maps := w.maps.set map e.sends
      endpoints := w.endpoints.set i { e with outbox } }
  | receiveMessages {i : ℕ} {e : Endpoint (Entry μ)} (he : w.endpoints[i]? = some e)
    {inbox : List (Entry μ)} {map : Messages (Entry μ)}
    (hx : Exchanged (w.maps.get e.receives) e.channel e.inbox inbox map) :
    Effect w (.receiveMessages i) { w with
      maps := w.maps.set map e.receives
      endpoints := w.endpoints.set i { e with inbox } }
  | distribute {i : ℕ} {e : Endpoint (Entry μ)} (he : w.endpoints[i]? = some e) :
    Effect w (.distribute i) { w with
      endpoints := w.endpoints.set i { e with inbox := [], dispatched := e.dispatched ++ e.inbox } }

/-- **What one call does.** -/
theorem step_effect {w w' : World μ} {a : Act μ} (h : w.step a = some w') : Effect w a w' := by
  cases a with
  | construct channel role =>
    rw [← Option.some.inj h]
    exact .construct channel role
  | sendMessage i message =>
    obtain ⟨e, he, rfl⟩ := Option.map_eq_some_iff.mp h
    exact .sendMessage he message
  | sendMessages i =>
    obtain ⟨r, hr, rfl⟩ := Option.map_eq_some_iff.mp h
    obtain ⟨e, he, hr⟩ := Option.bind_eq_some_iff.mp hr
    obtain ⟨⟨b, outbox, map⟩, hx, rfl⟩ := Option.map_eq_some_iff.mp hr
    exact .sendMessages he (exchanged_of_sendMessages hx)
  | receiveMessages i =>
    obtain ⟨r, hr, rfl⟩ := Option.map_eq_some_iff.mp h
    obtain ⟨e, he, hr⟩ := Option.bind_eq_some_iff.mp hr
    obtain ⟨⟨b, inbox, map⟩, hx, rfl⟩ := Option.map_eq_some_iff.mp hr
    exact .receiveMessages he (exchanged_of_receiveMessages hx)
  | distribute i =>
    obtain ⟨e, he, rfl⟩ := Option.map_eq_some_iff.mp h
    rw [Endpoint.distribute_eq]
    exact .distribute he

/-- **A receiver dispatches what the queue holds.** -/
theorem exec_receive {w : World μ} {j : ℕ} {e : Endpoint (Entry μ)} {q : List (Entry μ)}
    (he : w.endpoints[j]? = some e) (hq : (w.maps.get e.receives).lookup e.channel = some q)
    (h0 : q ≠ [] ∨ e.inbox = []) :
    ∃ w', exec step w [.receiveMessages j, .distribute j] = some w' ∧
      ∃ e', w'.endpoints = w.endpoints.set j e' ∧ e'.channel = e.channel ∧
        e'.connectionRole = e.connectionRole ∧ e'.dispatched = e.dispatched ++ q := by
  have hlt : j < w.endpoints.length := (List.getElem?_eq_some_iff.mp he).1
  -- the inbox gets the queue, be it exchanged or both of them empty
  obtain ⟨b, map, hr⟩ : ∃ b map,
      Inprocess.receiveMessages (w.maps.get e.receives) e.channel e.inbox = some (b, q, map) := by
    by_cases hne : q = []
    · subst hne
      exact ⟨false, w.maps.get e.receives, by
        simp [Inprocess.receiveMessages, hq, h0.resolve_left (not_not.mpr rfl)]⟩
    · exact ⟨true, (w.maps.get e.receives).insert e.channel e.inbox, by
        simp [Inprocess.receiveMessages, swap, hq, hne]⟩
  let e₁ : Endpoint (Entry μ) := { e with inbox := q }
  let maps := w.maps.set map e.receives
  have h1 : w.step (.receiveMessages j) = some ⟨maps, w.endpoints.set j e₁, w.pushed⟩ := by
    simp [step, receiveMessages, he, hr, maps, e₁]
  have h2 : step ⟨maps, w.endpoints.set j e₁, w.pushed⟩ (.distribute j) =
      some ⟨maps, w.endpoints.set j e₁.distribute, w.pushed⟩ := by
    simp [step, distribute, hlt]
  refine ⟨_, by rw [exec_cons, h1, Option.bind_some, exec_cons, h2]; rfl, e₁.distribute, rfl, ?_⟩
  rw [Endpoint.distribute_eq]
  exact ⟨rfl, rfl, rfl⟩

end World

end Petunia.Inprocess
