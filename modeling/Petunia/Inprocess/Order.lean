import Petunia.Inprocess.Conservation

set_option autoImplicit false

/-!
# The order of messages in the in-process medium

One Server and one Client on a channel, with their send and receive threads. `SendMessages` swaps
the outbox with the shared queue. If the peer has drained that queue, the outbox joins it in order;
if not, the older messages move back behind the newer ones.

* `World.pair`, `ThreadRun`, `World.run`: the two endpoints and the runs of their threads, each of
  them a run of `World.step` (`reaches_of_run`);
* `World.PreservesOrder`: no message overtakes an earlier one;
* `ThreadRun.SwapsEmpty`: the condition that a swap finds the shared queue empty;
* `World.Flow`, `World.InOrder`, **`inOrder_step`**: what was dispatched, the shared queue and the outbox make up what
  was pushed, in order;
* **`order_preserved`**: such runs preserve the order; `order_reversed` is a run that does not.
-/

namespace Petunia.Inprocess

open CTypes Lts Queues

variable {α μ : Type*}

/-! ## The two operations on a queue in order -/

/-- A swap with an empty shared queue puts the outbox behind what is shared. -/
theorem sendMessages_of_empty {map map' : Messages α} {channel : Bytes}
    {outbox outbox' shared : List α} {b : Bool} (hl : map.lookup channel = some shared)
    (h0 : outbox ≠ [] → shared = [])
    (h : sendMessages map channel outbox = some (b, outbox', map')) :
    outbox' = [] ∧ map'.lookup channel = some (shared ++ outbox) := by
  unfold sendMessages at h
  split_ifs at h with he
  · cases h
    rw [he, List.append_nil]
    exact ⟨rfl, hl⟩
  · rw [swap, hl] at h
    cases h
    rw [h0 he, List.nil_append]
    exact ⟨rfl, AList.lookup_insert map⟩

/-- An empty inbox takes everything that is shared. -/
theorem receiveMessages_of_empty {map map' : Messages α} {channel : Bytes}
    {inbox' shared : List α} {b : Bool} (hl : map.lookup channel = some shared)
    (h : receiveMessages map channel [] = some (b, inbox', map')) :
    inbox' = shared ∧ map'.lookup channel = some [] ∧ (b = false → shared = []) := by
  rw [receiveMessages, hl, Option.bind_some] at h
  split_ifs at h with he
  · cases h
    rw [he] at hl ⊢
    exact ⟨rfl, hl, fun _ => rfl⟩
  · rw [swap, hl] at h
    cases h
    exact ⟨rfl, AList.lookup_insert map, fun hb => Bool.noConfusion hb⟩

/-! ## Two endpoints and their threads -/

/-- What the threads of the endpoints do. -/
inductive ThreadRun (μ : Type*)
  | sendMessage (i : ℕ) (message : μ)
  | sendThread (i : ℕ)
  | receiveThread (i : ℕ)

/-- The endpoint whose thread runs. -/
def ThreadRun.index : ThreadRun μ → ℕ
  | .sendMessage i _ | .sendThread i | .receiveThread i => i

/-- A swap with a non-empty outbox finds the shared queue empty. -/
def ThreadRun.SwapsEmpty (w : World μ) : ThreadRun μ → Prop
  | .sendThread i => ∀ e ∈ w.endpoints[i]?, e.outbox ≠ [] →
      (w.maps.get e.sends).lookup e.channel = some []
  | _ => True

instance [DecidableEq μ] (w : World μ) : ∀ r : ThreadRun μ, Decidable (r.SwapsEmpty w)
  | .sendThread i => inferInstanceAs (Decidable (∀ e ∈ w.endpoints[i]?, e.outbox ≠ [] →
      (w.maps.get e.sends).lookup e.channel = some []))
  | .sendMessage _ _ | .receiveThread _ => isTrue trivial

theorem Endpoint.receives_ne_sends (e : Endpoint α) : e.receives ≠ e.sends := by
  unfold receives sends receiveMessagesMap sendMessagesMap
  split_ifs <;> simp

namespace World

/-- One Server and one Client on a channel, constructed in either order. -/
def pair (channel : Bytes) (role : ConnectionRole) : World μ :=
  (init.construct channel role).construct channel (opposite role)

/-- One run of a thread's loop body, or one push. -/
def run (w : World μ) : ThreadRun μ → Option (World μ)
  | .sendMessage i message => w.sendMessage i message
  | .sendThread i => (w.sendMessages i).map Prod.snd
  | .receiveThread i => (w.receiveMessages i).bind fun r =>
      if r.1 then r.2.distribute i else some r.2

/-- A run of a thread is a run of calls. -/
theorem reaches_of_run {w w' : World μ} {r : ThreadRun μ} (h : w.run r = some w') :
    Reaches step w w' := by
  cases r with
  | sendMessage i message => exact .single (a := .sendMessage i message) h
  | sendThread i => exact .single (a := .sendMessages i) h
  | receiveThread i =>
    obtain ⟨⟨b, u⟩, hu, hd⟩ := Option.bind_eq_some_iff.mp h
    have hu' : w.step (.receiveMessages i) = some u := by rw [step, hu]; rfl
    cases b with
    | false =>
      cases hd
      exact .single hu'
    | true => exact (Reaches.single hu').trans (.single (a := .distribute i) hd)

/-- No endpoint dispatches a message before one that its peer pushed earlier. -/
def PreservesOrder (w : World μ) : Prop :=
  ∀ i j f, i ≠ j → w.endpoints[j]? = some f →
    ∀ m₁ m₂, [m₁, m₂].Sublist (w.pushed.filter (·.origin = i)) → ¬ [m₂, m₁].Sublist f.dispatched

/-- From endpoint `i` to its peer `j`: dispatched messages, shared queue and outbox make up the
pushed messages, in order. -/
def Flow (w : World μ) (i j : ℕ) : Prop :=
  ∃ e f shared, w.endpoints[i]? = some e ∧ w.endpoints[j]? = some f ∧ f.channel = e.channel ∧
    f.receives = e.sends ∧ (w.maps.get e.sends).lookup e.channel = some shared ∧ f.inbox = [] ∧
    f.dispatched ++ shared ++ e.outbox = w.pushed.filter (·.origin = i)

/-- A push at either end. -/
theorem flow_sendMessage {w w' : World μ} {i j k : ℕ} {message : μ} (hij : i ≠ j)
    (hw : w.Flow i j) (hk : k = i ∨ k = j) (h : w.sendMessage k message = some w') :
    w'.Flow i j := by
  obtain ⟨e, f, shared, he, hf, hc, hd, hl, hin, hflow⟩ := hw
  obtain ⟨o, ho, rfl⟩ := Option.map_eq_some_iff.mp h
  rcases hk with rfl | rfl
  · cases he.symm.trans ho
    refine ⟨{ e with outbox := _ }, f, shared, getElem?_set_self he _, getElem?_set_of_ne hf hij,
      hc, hd, hl, hin, ?_⟩
    simp [List.filter_append, ← hflow]
  · cases hf.symm.trans ho
    refine ⟨e, { f with outbox := _ }, shared, getElem?_set_of_ne he hij.symm,
      getElem?_set_self hf _, hc, hd, hl, hin, ?_⟩
    simp [List.filter_append, hij.symm, ← hflow]

/-- A send at either end; at the near end it moves the outbox behind the shared queue. -/
theorem flow_sendMessages {w w' : World μ} {i j k : ℕ} {b : Bool} (hij : i ≠ j)
    (hw : w.Flow i j) (hk : k = i ∨ k = j) (hC : ThreadRun.SwapsEmpty w (.sendThread k))
    (h : w.sendMessages k = some (b, w')) : w'.Flow i j := by
  obtain ⟨e, f, shared, he, hf, hc, hd, hl, hin, hflow⟩ := hw
  obtain ⟨o, ho, h⟩ := Option.bind_eq_some_iff.mp h
  obtain ⟨⟨b, outbox, map⟩, hr, hw'⟩ := Option.map_eq_some_iff.mp h
  cases hw'
  rcases hk with rfl | rfl
  · cases he.symm.trans ho
    have h0 : e.outbox ≠ [] → shared = [] := fun hne =>
      Option.some.inj (hl.symm.trans (hC e he hne))
    obtain ⟨rfl, hl'⟩ := sendMessages_of_empty hl h0 hr
    refine ⟨{ e with outbox := [] }, f, shared ++ e.outbox, getElem?_set_self he _,
      getElem?_set_of_ne hf hij, hc, hd, ?_, hin, ?_⟩
    · rw [← hl']
      exact congrArg (AList.lookup e.channel) (Maps.get_set_self _ _ _)
    · rw [← hflow, List.append_nil, List.append_assoc]
  · cases hf.symm.trans ho
    refine ⟨e, { f with outbox }, shared, getElem?_set_of_ne he hij.symm, getElem?_set_self hf _,
      hc, hd, ?_, hin, hflow⟩
    have hne : e.sends ≠ f.sends := hd ▸ f.receives_ne_sends
    rw [← hl]
    exact congrArg (AList.lookup e.channel) (Maps.get_set_of_ne _ _ hne)

/-- A run of the receive thread: `Distribute` follows a `ReceiveMessages` that returned true. -/
theorem run_receiveThread {w w' : World μ} {k : ℕ} (h : w.run (.receiveThread k) = some w') :
    ∃ o b inbox map, w.endpoints[k]? = some o ∧
      Inprocess.receiveMessages (w.maps.get o.receives) o.channel o.inbox = some (b, inbox, map) ∧
      w' = { w with
        maps := w.maps.set map o.receives
        endpoints := w.endpoints.set k (if b then
          { o with inbox := [], dispatched := o.dispatched ++ inbox } else { o with inbox }) } := by
  obtain ⟨⟨b, u⟩, hu, hd⟩ := Option.bind_eq_some_iff.mp h
  obtain ⟨o, ho, hu⟩ := Option.bind_eq_some_iff.mp hu
  obtain ⟨⟨b', inbox, map⟩, hr, hu⟩ := Option.map_eq_some_iff.mp hu
  cases hu
  refine ⟨o, b', inbox, map, ho, hr, ?_⟩
  cases b' with
  | false =>
    cases hd
    rfl
  | true =>
    obtain ⟨o', ho', rfl⟩ := Option.map_eq_some_iff.mp hd
    cases (getElem?_set_self ho _).symm.trans ho'
    rw [Endpoint.distribute_eq, List.set_set]
    rfl

/-- A run of the receive thread at either end; at the far end it dispatches the shared queue. -/
theorem flow_receiveThread {w w' : World μ} {i j k : ℕ} (hij : i ≠ j) (hw : w.Flow i j)
    (hk : k = i ∨ k = j) (h : w.run (.receiveThread k) = some w') : w'.Flow i j := by
  obtain ⟨e, f, shared, he, hf, hc, hd, hl, hin, hflow⟩ := hw
  obtain ⟨o, b, inbox, map, ho, hr, rfl⟩ := run_receiveThread h
  rcases hk with rfl | rfl
  · cases he.symm.trans ho
    have hne : e.sends ≠ e.receives := e.receives_ne_sends.symm
    have hl' : ((w.maps.set map e.receives).get e.sends).lookup e.channel = some shared := by
      rw [Maps.get_set_of_ne _ _ hne, hl]
    cases b with
    | false =>
      exact ⟨{ e with inbox }, f, shared, getElem?_set_self he _, getElem?_set_of_ne hf hij, hc, hd,
        hl', hin, hflow⟩
    | true =>
      exact ⟨{ e with inbox := [], dispatched := e.dispatched ++ inbox }, f, shared,
        getElem?_set_self he _, getElem?_set_of_ne hf hij, hc, hd, hl', hin, hflow⟩
  · cases hf.symm.trans ho
    rw [hin, hc, hd] at hr
    obtain ⟨rfl, hl', hb⟩ := receiveMessages_of_empty hl hr
    have hl'' : ((w.maps.set map f.receives).get e.sends).lookup e.channel = some [] := by
      rw [hd, Maps.get_set_self, hl']
    cases b with
    | false =>
      have h0 := hb rfl
      subst h0
      exact ⟨e, { f with inbox := [] }, [], getElem?_set_of_ne he hij.symm, getElem?_set_self hf _,
        hc, hd, hl'', rfl, hflow⟩
    | true =>
      refine ⟨e, { f with inbox := [], dispatched := f.dispatched ++ inbox }, [],
        getElem?_set_of_ne he hij.symm, getElem?_set_self hf _, hc, hd, hl'', rfl, ?_⟩
      rw [← hflow, List.append_nil]

/-! ## Runs of the pair -/

/-- Both flows are in order, and there is no third endpoint. -/
structure InOrder (w : World μ) : Prop where
  forth : w.Flow 0 1
  back : w.Flow 1 0
  length : w.endpoints.length = 2

theorem lookup_pair (channel : Bytes) (role : ConnectionRole) (d : Direction) :
    ((pair channel role : World μ).maps.get d).lookup channel = some [] := by
  have hget : (pair channel role : World μ).maps.get d =
      ensureChannelExists channel (ensureChannelExists channel ∅) := by cases d <;> rfl
  rw [hget]
  obtain ⟨q, hq⟩ := Option.isSome_iff_exists.mp (isSome_lookup_ensureChannelExists channel
    (ensureChannelExists channel (∅ : Messages (Entry μ))))
  rcases lookup_ensureChannelExists hq with h | ⟨rfl, -⟩
  · rcases lookup_ensureChannelExists h with h' | ⟨rfl, -⟩
    · cases h'
    · exact hq
  · exact hq

theorem inOrder_pair (channel : Bytes) (role : ConnectionRole) :
    InOrder (pair channel role : World μ) := by
  obtain ⟨e, f, hends, he, hf, hd, hd', h0⟩ :
      ∃ e f, (pair channel role : World μ).endpoints = [e, f] ∧ e.channel = channel ∧
      f.channel = channel ∧ f.receives = e.sends ∧ e.receives = f.sends ∧
      ∀ x ∈ [e, f], x.outbox = [] ∧ x.inbox = [] ∧ x.dispatched = [] := by
    cases role with
    | auto =>
      -- the first endpoint has made the channel's entry when the second looks for it
      have hne : (ensureChannelExists channel (∅ : Messages (Entry μ))).lookup channel ≠ none :=
        Option.isSome_iff_ne_none.mp (isSome_lookup_ensureChannelExists channel _)
      refine ⟨_, _, rfl, rfl, rfl, ?_, ?_, by simp [construct]⟩ <;>
        simp [construct, opposite, init, Maps.empty, resolveRole, Endpoint.sends,
          Endpoint.receives, sendMessagesMap, receiveMessagesMap, hne]
    | server => exact ⟨_, _, rfl, rfl, rfl, rfl, rfl, by simp [construct]⟩
    | client => exact ⟨_, _, rfl, rfl, rfl, rfl, rfl, by simp [construct]⟩
  obtain ⟨h0e, h0f⟩ : (e.outbox = [] ∧ e.inbox = [] ∧ e.dispatched = []) ∧
      f.outbox = [] ∧ f.inbox = [] ∧ f.dispatched = [] := by simpa using h0
  refine ⟨⟨e, f, [], by rw [hends]; rfl, by rw [hends]; rfl, hf.trans he.symm, hd, ?_, h0f.2.1, ?_⟩,
    ⟨f, e, [], by rw [hends]; rfl, by rw [hends]; rfl, he.trans hf.symm, hd', ?_, h0e.2.1, ?_⟩,
    by rw [hends]; rfl⟩
  · rw [he, lookup_pair]
  · rw [h0f.2.2, h0e.1]; rfl
  · rw [hf, lookup_pair]
  · rw [h0e.2.2, h0f.1]; rfl

theorem length_run {w w' : World μ} {r : ThreadRun μ} (h : w.run r = some w') :
    r.index < w.endpoints.length ∧ w'.endpoints.length = w.endpoints.length := by
  cases r with
  | sendMessage k message =>
    obtain ⟨o, ho, rfl⟩ := Option.map_eq_some_iff.mp h
    exact ⟨(List.getElem?_eq_some_iff.mp ho).1, List.length_set⟩
  | sendThread k =>
    obtain ⟨⟨b, u⟩, hu, rfl⟩ := Option.map_eq_some_iff.mp h
    obtain ⟨o, ho, hu⟩ := Option.bind_eq_some_iff.mp hu
    obtain ⟨r, -, hu⟩ := Option.map_eq_some_iff.mp hu
    cases hu
    exact ⟨(List.getElem?_eq_some_iff.mp ho).1, List.length_set⟩
  | receiveThread k =>
    obtain ⟨o, b, inbox, map, ho, -, rfl⟩ := run_receiveThread h
    exact ⟨(List.getElem?_eq_some_iff.mp ho).1, List.length_set⟩

/-- **One run of a thread keeps both flows in order**, if a swap finds the shared queue empty. -/
theorem inOrder_step {w w' : World μ} {r : ThreadRun μ} (hw : w.InOrder) (hC : r.SwapsEmpty w)
    (h : w.run r = some w') : w'.InOrder := by
  obtain ⟨hlt, hlen⟩ := length_run h
  have hk : r.index = 0 ∨ r.index = 1 := by have := hw.length; omega
  have key : ∀ i j, i ≠ j → (r.index = i ∨ r.index = j) → w.Flow i j → w'.Flow i j := by
    intro i j hij hk hf
    cases r with
    | sendMessage k message => exact flow_sendMessage hij hf hk h
    | sendThread k =>
      obtain ⟨⟨b, u⟩, hu, rfl⟩ := Option.map_eq_some_iff.mp h
      exact flow_sendMessages hij hf hk hC hu
    | receiveThread k => exact flow_receiveThread hij hf hk h
  exact ⟨key 0 1 (by omega) hk hw.forth, key 1 0 (by omega) hk.symm hw.back, hlen.trans hw.length⟩

/-- What was dispatched is the first part of what the peer pushed. -/
theorem InOrder.prefixOf {w : World μ} (hw : w.InOrder) {j : ℕ} {f : Endpoint (Entry μ)}
    (hf : w.endpoints[j]? = some f) : ∃ i, f.dispatched <+: w.pushed.filter (·.origin = i) := by
  have hj : j < 2 := by rw [← hw.length]; exact (List.getElem?_eq_some_iff.mp hf).1
  obtain ⟨i, e, f', shared, -, hf', -, -, -, -, h⟩ : ∃ i, w.Flow i j := by
    rcases (by omega : j = 0 ∨ j = 1) with rfl | rfl
    · exact ⟨1, hw.back⟩
    · exact ⟨0, hw.forth⟩
  cases hf.symm.trans hf'
  refine ⟨i, ?_⟩
  rw [← h, List.append_assoc]
  exact List.prefix_append _ _

theorem conserves_run {channel : Bytes} {role : ConnectionRole} {w : World μ}
    {as : List (ThreadRun μ)} (h : exec run (pair channel role) as = some w) : w.Conserves := by
  refine exec_invariant (I := Conserves) (fun w r w' hw hr => ?_) h ?_
  · obtain ⟨bs, hbs⟩ := reaches_of_run hr
    exact exec_invariant (fun _ _ _ => conserves_step) hbs hw
  · have hinit : exec step (init : World μ) [.construct channel role, .construct channel
        (opposite role)] = some (pair channel role) := rfl
    exact exec_invariant (fun _ _ _ => conserves_step) hinit conserves_init

/-- **The order of messages is preserved** in every run of the threads of a Server and a Client in
which each swap with a non-empty outbox finds the shared queue empty. -/
theorem order_preserved {channel : Bytes} {role : ConnectionRole} {w : World μ}
    {as : List (ThreadRun μ)} (h : exec run (pair channel role) as = some w)
    (ha : Along run (fun w r => r.SwapsEmpty w) (pair channel role) as) : w.PreservesOrder := by
  have hw : w.InOrder := exec_invariant_along (fun _ _ _ => inOrder_step) h ha
    (inOrder_pair channel role)
  have hserial : w.pushed.Pairwise fun x y => x.serial < y.serial := by
    rw [← List.pairwise_map, (conserves_run h).serials]
    exact List.pairwise_lt_range
  intro i j f _ hf m₁ m₂ hpushed hdispatched
  obtain ⟨k, hk⟩ := hw.prefixOf hf
  have h₁ := hserial.sublist (hpushed.trans List.filter_sublist)
  have h₂ := hserial.sublist ((hdispatched.trans hk.sublist).trans List.filter_sublist)
  simp only [List.pairwise_cons, List.mem_singleton, forall_eq] at h₁ h₂
  exact Nat.lt_asymm h₁.1 h₂.1

theorem order_preserved_two :
    let w : World ℕ := ⟨⟨.singleton [99] [], .singleton [99] []⟩,
      [⟨[99], .server, by decide, [], [], []⟩,
        ⟨[99], .client, by decide, [], [], [⟨0, 0, 5⟩, ⟨0, 1, 6⟩]⟩], [⟨0, 0, 5⟩, ⟨0, 1, 6⟩]⟩
    w.PreservesOrder :=
  order_preserved (show exec run (pair [99] .auto) [.sendMessage 0 5, .sendThread 0,
    .receiveThread 1, .sendMessage 0 6, .sendThread 0, .receiveThread 1] = some _ from rfl)
    (by decide)

/-- **A reversed order.** The second swap finds the first message still shared and takes it back. -/
theorem order_reversed :
    ∃ w : World ℕ, exec run (pair [99] .server) [.sendMessage 0 5, .sendThread 0, .sendMessage 0 6,
        .sendThread 0, .receiveThread 1, .sendThread 0, .receiveThread 1] = some w ∧
      (w.endpoints.map fun e => e.dispatched.map Entry.message) = [[], [6, 5]] ∧
      ¬ w.PreservesOrder := by
  refine ⟨_, rfl, rfl, fun h => ?_⟩
  exact h 0 1 _ (by decide) rfl ⟨0, 0, 5⟩ ⟨0, 1, 6⟩ (by decide) (by decide)

end World

end Petunia.Inprocess
