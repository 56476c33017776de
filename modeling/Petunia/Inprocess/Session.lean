import Petunia.Inprocess.Isolation

set_option autoImplicit false

/-!
# Sessions on a channel

The destructor of an in-process endpoint has an empty body, and the maps are static: what a session
leaves in the queues of its channel is there when the next one begins.

* `Session`, `Session.step`: the calls of `World` and destructions; an endpoint that has been
  destroyed makes no more calls;
* `Session.Since`, `since_step`: the endpoints constructed from some moment on have only messages
  pushed on one of them;
* **`session_isolated_iff`**: a new pair of endpoints on a channel is free of earlier messages if and
  only if the earlier session has left both queues empty (`session_leaks`: a client that dispatches
  what a destroyed server has sent).
-/

namespace Petunia.Inprocess

open CTypes Lts Queues

variable {μ : Type*}

/-- The endpoint that makes the call. -/
def Act.endpoint : Act μ → Option ℕ
  | .construct _ _ => none
  | .sendMessage i _ | .sendMessages i | .receiveMessages i | .distribute i => some i

/-- The process and the endpoints that have been destroyed. -/
structure Session (μ : Type*) where
  world : World μ
  destroyed : List ℕ

/-- A call or a destruction. -/
inductive SessionAct (μ : Type*)
  | call (a : Act μ)
  | destroy (i : ℕ)

namespace Session

/-- No endpoint has been constructed. -/
def init : Session μ := ⟨.init, []⟩

/-- `Petunia::~Petunia`: the threads are joined and the medium is deleted, whose destructor does
nothing; what the endpoint still held is lost. -/
def destroy (s : Session μ) (i : ℕ) : Option (Session μ) :=
  if i < s.world.endpoints.length ∧ i ∉ s.destroyed then
    some { s with destroyed := i :: s.destroyed }
  else none

/-- One step. -/
def step (s : Session μ) : SessionAct μ → Option (Session μ)
  | .call a =>
    if ∀ i ∈ a.endpoint, i ∉ s.destroyed then (s.world.step a).map fun world => { s with world }
    else none
  | .destroy i => s.destroy i

/-- The endpoint is one of the channel and has been constructed as number `i`. -/
def On (s : Session μ) (c : Bytes) (i : ℕ) (e : Endpoint (Entry μ)) : Prop :=
  s.world.endpoints[i]? = some e ∧ e.channel = c

/-- All endpoints of the channel have been destroyed. -/
def Ended (s : Session μ) (c : Bytes) : Prop := ∀ i e, s.On c i e → i ∈ s.destroyed

/-- A server and a client of the channel have been constructed after the first `n` endpoints. -/
def HasPair (s : Session μ) (c : Bytes) (n : ℕ) : Prop :=
  ∃ i j e o, n ≤ i ∧ n ≤ j ∧ s.On c i e ∧ s.On c j o ∧ e.connectionRole = .server ∧
    o.connectionRole = .client

/-- Whatever an endpoint of the channel constructed after the first `n` has dispatched was pushed on
such an endpoint. -/
def DispatchesOwn (s : Session μ) (c : Bytes) (n : ℕ) : Prop :=
  ∀ i e, n ≤ i → s.On c i e → ∀ m ∈ e.dispatched, n ≤ m.origin ∧ ∃ o, s.On c m.origin o

/-- The two shared queues of the channel hold nothing. -/
def Drained (s : Session μ) (c : Bytes) : Prop :=
  ∀ d q, (s.world.maps.get d).lookup c = some q → q = []

/-- **What one step does**: one of a call of an endpoint that lives, and a destruction. -/
theorem step_cases {s s' : Session μ} {a : SessionAct μ} (h : s.step a = some s') :
    (∃ b w, a = .call b ∧ (∀ i ∈ b.endpoint, i ∉ s.destroyed) ∧ s.world.step b = some w ∧
      s' = ⟨w, s.destroyed⟩) ∨
    ∃ i, a = .destroy i ∧ i < s.world.endpoints.length ∧ i ∉ s.destroyed ∧
      s' = ⟨s.world, i :: s.destroyed⟩ := by
  cases a with
  | call b =>
    simp only [step] at h
    split_ifs at h with hb
    obtain ⟨w, hw, rfl⟩ := Option.map_eq_some_iff.mp h
    exact .inl ⟨b, w, rfl, hb, hw, rfl⟩
  | destroy i =>
    simp only [step, destroy] at h
    split_ifs at h with hi
    cases h
    exact .inr ⟨i, rfl, hi.1, hi.2, rfl⟩

theorem isolated_step {s s' : Session μ} {a : SessionAct μ} (hs : s.world.Isolated)
    (h : s.step a = some s') : s'.world.Isolated := by
  rcases step_cases h with ⟨b, w, -, -, hw, rfl⟩ | ⟨i, -, -, -, rfl⟩
  · exact World.isolated_step hs hw
  · exact hs

/-! ## From some moment on -/

/-- The first `n` endpoints of the channel have been destroyed, and wherever else a message of the
channel is, it was pushed on a later one. -/
structure Since (s : Session μ) (c : Bytes) (n : ℕ) : Prop where
  length : n ≤ s.world.endpoints.length
  destroyed : ∀ i e, s.On c i e → i < n → i ∈ s.destroyed
  shared : ∀ d q, (s.world.maps.get d).lookup c = some q → ∀ m ∈ q, n ≤ m.origin
  own : ∀ i e, s.On c i e → n ≤ i → ∀ m ∈ e.outbox ++ e.inbox ++ e.dispatched, n ≤ m.origin

theorem since_of_drained {s : Session μ} {c : Bytes} (he : s.Ended c) (hd : s.Drained c) :
    s.Since c s.world.endpoints.length := by
  refine ⟨le_rfl, fun i e hi _ => he i e hi, fun d q hl m hm => ?_, fun i e hi hn => ?_⟩
  · rw [hd d q hl] at hm
    cases hm
  · have hlt := (List.getElem?_eq_some_iff.mp hi.1).1
    omega

/-- A call of one endpoint replaces the endpoint, and the queues of its channel. -/
theorem Since.set {s : Session μ} {c : Bytes} {n i : ℕ} {e e' : Endpoint (Entry μ)}
    {maps : Maps (Entry μ)} {pushed : List (Entry μ)} (hs : s.Since c n)
    (he : s.world.endpoints[i]? = some e) (hc : e'.channel = e.channel)
    (hshared : ∀ d q, (maps.get d).lookup c = some q → ∀ m ∈ q, n ≤ m.origin)
    (hown : e.channel = c → n ≤ i → ∀ m ∈ e'.outbox ++ e'.inbox ++ e'.dispatched, n ≤ m.origin) :
    Since ⟨⟨maps, s.world.endpoints.set i e', pushed⟩, s.destroyed⟩ c n := by
  have hlt : i < s.world.endpoints.length := (List.getElem?_eq_some_iff.mp he).1
  refine ⟨by simpa using hs.length, fun j o ho hj => ?_, hshared, fun j o ho hj => ?_⟩
  · by_cases hij : i = j
    · subst hij
      have ho' : e' = o := by simpa [On, hlt] using ho.1
      exact hs.destroyed i e ⟨he, by rw [← hc, ho']; exact ho.2⟩ hj
    · exact hs.destroyed j o ⟨by simpa [List.getElem?_set_ne hij] using ho.1, ho.2⟩ hj
  · by_cases hij : i = j
    · subst hij
      have ho' : e' = o := by simpa [On, hlt] using ho.1
      subst ho'
      exact hown (hc ▸ ho.2) hj
    · exact hs.own j o ⟨by simpa [List.getElem?_set_ne hij] using ho.1, ho.2⟩ hj

/-- An exchange with the queue of the channel. -/
theorem Since.exchange {s : Session μ} {c c' : Bytes} {n : ℕ} {d : Direction}
    {queue queue' : List (Entry μ)} {map : Messages (Entry μ)} (hs : s.Since c n)
    (hx : Exchanged (s.world.maps.get d) c' queue queue' map)
    (hq : c' = c → ∀ m ∈ queue, n ≤ m.origin) :
    (c' = c → ∀ m ∈ queue', n ≤ m.origin) ∧
      ∀ d' q, ((s.world.maps.set map d).get d').lookup c = some q → ∀ m ∈ q, n ≤ m.origin := by
  refine ⟨fun hc => ?_, fun d' q hl => ?_⟩
  · subst hc
    cases hx with
    | unchanged => exact hq rfl
    | swapped hl => exact hs.shared d _ hl
  · by_cases hc : c = c'
    · subst hc
      by_cases hd : d' = d
      · subst hd
        rw [Maps.get_set_self] at hl
        cases hx with
        | unchanged => exact hs.shared d' q hl
        | swapped =>
          rw [AList.lookup_insert] at hl
          exact Option.some.inj hl ▸ hq rfl
      · rw [Maps.get_set_of_ne _ _ hd] at hl
        exact hs.shared d' q hl
    · rw [World.lookup_exchange_of_ne hx hc] at hl
      exact hs.shared d' q hl

/-- A new endpoint has nothing, and a new queue is empty. -/
theorem Since.construct {s : Session μ} {c : Bytes} {n : ℕ} (hs : s.Since c n) (channel : Bytes)
    (role : ConnectionRole) : Since ⟨s.world.construct channel role, s.destroyed⟩ c n := by
  have hlen := hs.length
  -- an endpoint is an earlier one or the new one
  have hon : ∀ j o, On ⟨s.world.construct channel role, s.destroyed⟩ c j o → s.On c j o ∨
      (j = s.world.endpoints.length ∧ o.outbox ++ o.inbox ++ o.dispatched = []) := by
    rintro j o ⟨ho, hc⟩
    rcases World.getElem?_construct ho with ho | ⟨hj, rfl⟩
    · exact .inl ⟨ho, hc⟩
    · exact .inr ⟨hj, rfl⟩
  refine ⟨?_, fun j o ho hj => ?_, fun d q hl m hm => ?_, fun j o ho hj m hm => ?_⟩
  · simp only [World.construct, List.length_append]
    omega
  · rcases hon j o ho with ho | ⟨rfl, -⟩
    · exact hs.destroyed j o ho hj
    · omega
  · rw [World.get_construct] at hl
    rcases lookup_ensureChannelExists hl with hl | ⟨rfl, -⟩
    · exact hs.shared d q hl m hm
    · cases hm
  · rcases hon j o ho with ho | ⟨-, h0⟩
    · exact hs.own j o ho hj m hm
    · rw [h0] at hm
      cases hm

/-- **One step.** -/
theorem since_step {s s' : Session μ} {a : SessionAct μ} {c : Bytes} {n : ℕ} (hs : s.Since c n)
    (h : s.step a = some s') : s'.Since c n := by
  rcases step_cases h with ⟨b, w, -, hb, hw, rfl⟩ | ⟨i, -, -, -, rfl⟩
  · -- an endpoint of the channel that makes a call is a later one
    have hlive : ∀ i e, s.On c i e → i ∈ b.endpoint → n ≤ i := by
      intro i e hi hm
      by_contra hlt
      exact hb i hm (hs.destroyed i e hi (by omega))
    cases World.step_effect hw with
    | construct channel role => exact hs.construct channel role
    | @sendMessage i e he message =>
      refine hs.set he rfl hs.shared fun hc hn m hm => ?_
      have hown := hs.own i e ⟨he, hc⟩ hn
      simp only [List.mem_append, List.mem_singleton] at hm hown
      rcases hm with ((hm | rfl) | hm) | hm
      · exact hown m (.inl (.inl hm))
      · exact hn
      · exact hown m (.inl (.inr hm))
      · exact hown m (.inr hm)
    | @sendMessages i e he outbox map hx =>
      have hown := fun hc => hs.own i e ⟨he, hc⟩ (hlive i e ⟨he, hc⟩ rfl)
      simp only [List.mem_append] at hown
      obtain ⟨hq, hshared⟩ := hs.exchange hx fun hc m hm => hown hc m (.inl (.inl hm))
      refine hs.set he rfl hshared fun hc _ m hm => ?_
      simp only [List.mem_append] at hm
      rcases hm with (hm | hm) | hm
      · exact hq hc m hm
      · exact hown hc m (.inl (.inr hm))
      · exact hown hc m (.inr hm)
    | @receiveMessages i e he inbox map hx =>
      have hown := fun hc => hs.own i e ⟨he, hc⟩ (hlive i e ⟨he, hc⟩ rfl)
      simp only [List.mem_append] at hown
      obtain ⟨hq, hshared⟩ := hs.exchange hx fun hc m hm => hown hc m (.inl (.inr hm))
      refine hs.set he rfl hshared fun hc _ m hm => ?_
      simp only [List.mem_append] at hm
      rcases hm with (hm | hm) | hm
      · exact hown hc m (.inl (.inl hm))
      · exact hq hc m hm
      · exact hown hc m (.inr hm)
    | @distribute i e he =>
      refine hs.set he rfl hs.shared fun hc hn m hm => ?_
      have hown := hs.own i e ⟨he, hc⟩ hn
      simp only [List.mem_append, List.append_nil] at hm hown
      rcases hm with hm | hm | hm
      · exact hown m (.inl (.inl hm))
      · exact hown m (.inr hm)
      · exact hown m (.inl (.inr hm))
  · exact ⟨hs.length, fun j o ho hj => List.mem_cons_of_mem i (hs.destroyed j o ho hj), hs.shared,
      hs.own⟩

/-! ## A new pair -/

/-- Calls of endpoints that live. -/
theorem exec_call {s : Session μ} {as : List (Act μ)} {w : World μ}
    (hl : ∀ a ∈ as, ∀ i ∈ a.endpoint, i ∉ s.destroyed) (h : exec World.step s.world as = some w) :
    exec step s (as.map .call) = some ⟨w, s.destroyed⟩ := by
  induction as generalizing s with
  | nil =>
    cases h
    rfl
  | cons a as ih =>
    obtain ⟨v, hv, h⟩ := exec_cons_eq_some.mp h
    have h1 : s.step (.call a) = some ⟨v, s.destroyed⟩ := by
      rw [step, if_pos (hl a List.mem_cons_self), hv, Option.map_some]
    rw [List.map_cons, exec_cons, h1, Option.bind_some]
    exact ih (fun b hb => hl b (List.mem_cons_of_mem a hb)) h

/-- Only endpoints that have been constructed are destroyed. -/
theorem destroyed_lt_step {s s' : Session μ} {a : SessionAct μ}
    (hs : ∀ i ∈ s.destroyed, i < s.world.endpoints.length) (h : s.step a = some s') :
    ∀ i ∈ s'.destroyed, i < s'.world.endpoints.length := by
  rcases step_cases h with ⟨b, w, -, -, hw, rfl⟩ | ⟨i, -, hi, -, rfl⟩
  · intro i hi
    have hlt := hs i hi
    cases World.step_effect hw with
    | construct => simp only [World.construct, List.length_append]; omega
    | _ => simpa using hlt
  · intro j hj
    rcases List.mem_cons.mp hj with rfl | hj
    · exact hi
    · exact hs j hj

/-- A new server and a new client on the channel. -/
def newPair (w : World μ) (c : Bytes) : World μ := (w.construct c .server).construct c .client

/-- The new pair finds the queues of the channel as they are. -/
theorem lookup_newPair {w : World μ} {c : Bytes} {d : Direction} {q : List (Entry μ)}
    (h : (w.maps.get d).lookup c = some q) :
    ((newPair w c).maps.get d).lookup c = some q := by
  have h0 : ((w.maps.get d).lookup c).isSome := by rw [h]; rfl
  rw [newPair, World.get_construct, World.get_construct, lookup_ensureChannelExists_of_isSome,
    lookup_ensureChannelExists_of_isSome h0, h]
  rwa [lookup_ensureChannelExists_of_isSome h0]

theorem exists_newPair (w : World μ) (c : Bytes) : ∃ e o,
    ((newPair w c).endpoints[w.endpoints.length]? = some e ∧ e.channel = c ∧
      e.connectionRole = .server) ∧
    (newPair w c).endpoints[w.endpoints.length + 1]? = some o ∧ o.channel = c ∧
      o.connectionRole = .client := by
  refine ⟨⟨c, .server, by decide, [], [], []⟩, ⟨c, .client, by decide, [], [], []⟩,
    ⟨?_, rfl, rfl⟩, ?_, rfl, rfl⟩
  · simp [newPair, World.construct, resolveRole]
  · simp [newPair, World.construct, resolveRole]

/-- One of the two receives through each map. -/
theorem exists_receiver (w : World μ) (c : Bytes) (d : Direction) :
    ∃ j e, (newPair w c).endpoints[j]? = some e ∧ w.endpoints.length ≤ j ∧ e.channel = c ∧
      e.receives = d := by
  obtain ⟨e, o, ⟨he, hec, her⟩, ho, hoc, hor⟩ := exists_newPair w c
  cases d with
  | toServer => exact ⟨_, e, he, le_rfl, hec, by rw [Endpoint.receives, her]; rfl⟩
  | toClient => exact ⟨_, o, ho, Nat.le_succ _, hoc, by rw [Endpoint.receives, hor]; rfl⟩

/-- **A message that was left is dispatched by a new endpoint.** -/
theorem exists_leak {s : Session μ} {c : Bytes} (hs : s.world.Isolated)
    (hlt : ∀ i ∈ s.destroyed, i < s.world.endpoints.length) (hd : ¬ s.Drained c) :
    ∃ bs s', exec step s bs = some s' ∧ s'.HasPair c s.world.endpoints.length ∧
      ¬ s'.DispatchesOwn c s.world.endpoints.length := by
  obtain ⟨d, q, hl, hne⟩ : ∃ d q, (s.world.maps.get d).lookup c = some q ∧ q ≠ [] := by
    simpa [Drained] using hd
  obtain ⟨m, hm⟩ := List.exists_mem_of_ne_nil q hne
  -- the origin of the message is an endpoint of the earlier session
  have horigin : m.origin < s.world.endpoints.length := by
    obtain ⟨-, o, ho, -⟩ := hs.shared d c q hl m hm
    exact (List.getElem?_eq_some_iff.mp ho).1
  obtain ⟨j, e₁, hj, hn, hc₁, hd₁⟩ := exists_receiver s.world c d
  obtain ⟨w', hw', e', hends, hc', hr', hdisp⟩ :=
    World.exec_receive hj (by rw [hd₁, hc₁]; exact lookup_newPair hl) (.inl hne)
  have hrun : exec World.step s.world
      [.construct c .server, .construct c .client, .receiveMessages j, .distribute j] = some w' :=
    exec_trans (rfl : exec World.step s.world [.construct c .server, .construct c .client] =
      some (newPair s.world c)) hw'
  refine ⟨[.construct c .server, .construct c .client, .receiveMessages j, .distribute j].map .call,
    ⟨w', s.destroyed⟩, exec_call ?_ hrun, ?_, fun hown => ?_⟩
  · intro a ha i hi hdes
    have hilt := hlt i hdes
    simp only [List.mem_cons, List.not_mem_nil, or_false] at ha
    rcases ha with rfl | rfl | rfl | rfl <;> cases hi <;> omega
  · -- the call has left both endpoints as they were constructed
    obtain ⟨e, o, ⟨he, hec, her⟩, ho, hoc, hor⟩ := exists_newPair s.world c
    have hg := World.grows_set w'.maps e' hj hc' hr'
      fun m (hm : m ∈ (newPair s.world c).pushed) => hm
    obtain ⟨e₂, he₂, hec₂, her₂⟩ := hg.endpoint _ e he
    obtain ⟨o₂, ho₂, hoc₂, hor₂⟩ := hg.endpoint _ o ho
    refine ⟨_, _, e₂, o₂, le_rfl, Nat.le_succ _, ⟨?_, hec₂.trans hec⟩, ⟨?_, hoc₂.trans hoc⟩,
      her₂.trans her, hor₂.trans hor⟩
    · rw [hends]
      exact he₂
    · rw [hends]
      exact ho₂
  · have hj' : w'.endpoints[j]? = some e' := by
      rw [hends]
      exact getElem?_set_self hj e'
    have hm' : m ∈ e'.dispatched := by
      rw [hdisp]
      exact List.mem_append_right _ hm
    have hle := (hown j e' hn ⟨hj', hc'.trans hc₁⟩ m hm').1
    omega

/-- **When a new pair is free of earlier messages.** In every state in which all endpoints of a
channel have been destroyed: in every run from it that constructs a server and a client on the
channel, the new endpoints dispatch only what was pushed on one of them, if and only if the two
queues of the channel hold nothing. -/
theorem session_isolated_iff {as : List (SessionAct μ)} {s : Session μ} {c : Bytes}
    (h : exec step init as = some s) (he : s.Ended c) :
    (∀ bs s', exec step s bs = some s' → s'.HasPair c s.world.endpoints.length →
      s'.DispatchesOwn c s.world.endpoints.length) ↔ s.Drained c := by
  have hs : s.world.Isolated := exec_invariant (I := fun s : Session μ => s.world.Isolated)
    (fun _ _ _ => isolated_step) h World.isolated_init
  constructor
  · intro hall
    by_contra hd
    have hlt := exec_invariant (I := fun s : Session μ =>
      ∀ i ∈ s.destroyed, i < s.world.endpoints.length) (fun _ _ _ => destroyed_lt_step) h
      (fun i hi => by cases hi)
    obtain ⟨bs, s', hbs, hp, hn⟩ := exists_leak hs hlt hd
    exact hn (hall bs s' hbs hp)
  · intro hd bs s' hbs _ i e hi ho m hm
    have hsince := exec_invariant (fun _ _ _ => since_step) hbs (since_of_drained he hd)
    have hs' : s'.world.Isolated := exec_invariant (I := fun s : Session μ => s.world.Isolated)
      (fun _ _ _ => isolated_step) hbs hs
    obtain ⟨-, o, hom, hoc, -⟩ := (hs'.clean e (List.mem_of_getElem? ho.1)).dispatched m hm
    exact ⟨hsince.own i e ho hi m (List.mem_append_right _ hm), o, hom, hoc.trans ho.2⟩

/-- A session that has ended with all its messages received. -/
theorem session_isolated_iff_drained : ∃ s : Session ℕ, exec step init
      [.call (.construct [97] .server), .call (.construct [97] .client), .call (.sendMessage 0 5),
        .call (.sendMessages 0), .call (.receiveMessages 1), .call (.distribute 1), .destroy 1,
        .destroy 0] = some s ∧ s.Ended [97] ∧
    ∀ bs s', exec step s bs = some s' → s'.HasPair [97] s.world.endpoints.length →
      s'.DispatchesOwn [97] s.world.endpoints.length := by
  have key : ∀ s : Session ℕ, exec step init
      [.call (.construct [97] .server), .call (.construct [97] .client), .call (.sendMessage 0 5),
        .call (.sendMessages 0), .call (.receiveMessages 1), .call (.distribute 1), .destroy 1,
        .destroy 0] = some s → s.Ended [97] ∧
      ∀ bs s', exec step s bs = some s' → s'.HasPair [97] s.world.endpoints.length →
        s'.DispatchesOwn [97] s.world.endpoints.length := by
    intro s h
    have he : s.Ended [97] := by
      cases h
      intro i e hi
      match i, hi with
      | 0, _ => exact .head _
      | 1, _ => exact .tail _ (.head _)
      | n + 2, hi => cases hi.1
    refine ⟨he, (session_isolated_iff h he).mpr ?_⟩
    cases h
    rintro (_ | _) q hq <;> cases hq <;> rfl
  exact ⟨_, rfl, key _ rfl⟩

/-- **A message survives its session.** The server sends, both endpoints are destroyed before the
client receives, and the client of the next pair dispatches the message. -/
theorem session_leaks : ∃ s s' : Session ℕ, exec step init
      [.call (.construct [97] .server), .call (.construct [97] .client), .call (.sendMessage 0 5),
        .call (.sendMessages 0), .destroy 0, .destroy 1] = some s ∧ s.Ended [97] ∧
    exec step s [.call (.construct [97] .server), .call (.construct [97] .client),
      .call (.receiveMessages 3), .call (.distribute 3)] = some s' ∧ s'.HasPair [97] 2 ∧
    ¬ s'.DispatchesOwn [97] 2 := by
  refine ⟨_, _, rfl, fun i e hi => ?_, rfl, ?_, fun h => ?_⟩
  · match i, hi with
    | 0, _ => exact .tail _ (.head _)
    | 1, _ => exact .head _
    | n + 2, hi => cases hi.1
  · exact ⟨2, 3, _, _, le_rfl, by omega, ⟨rfl, rfl⟩, ⟨rfl, rfl⟩, rfl, rfl⟩
  · exact absurd (h 3 _ (by omega) ⟨rfl, rfl⟩ ⟨0, 0, 5⟩ (.head _)).1 (by decide)

end Session

end Petunia.Inprocess
