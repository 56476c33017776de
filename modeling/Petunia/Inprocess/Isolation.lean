import Petunia.Inprocess.World

set_option autoImplicit false

/-!
# Isolation of channels and directions

The shared maps are keyed by channel, and a role sends through one map and receives through the
other. So the origin of a message is known from where it is, through every exchange of queues.

* `World.From`: a message was pushed on an endpoint of a channel that sends through a map;
* `World.Isolated`, **`isolated_step`**: where a message of a given origin can be;
* `Act.channel`, `lookup_of_ne`: a call leaves the queues of other channels alone;
* **`isolated`**: the origin of dispatched messages, the frame of a call, and that no `find` returns
  `end()`.
-/

namespace Petunia.Inprocess

open CTypes Lts Queues

variable {α μ : Type*}

/-- Who sends through the map from which an endpoint receives has the opposite role. -/
theorem Endpoint.role_of_sends {e o : Endpoint α} (h : o.sends = e.receives) :
    o.connectionRole = opposite e.connectionRole := by
  have he := e.resolved
  have ho := o.resolved
  unfold sends receives sendMessagesMap receiveMessagesMap at h
  cases hr : e.connectionRole with
  | auto => exact absurd hr he
  | server =>
    cases hr' : o.connectionRole with
    | auto => exact absurd hr' ho
    | server => rw [hr, hr'] at h; cases h
    | client => rfl
  | client =>
    cases hr' : o.connectionRole with
    | auto => exact absurd hr' ho
    | server => rfl
    | client => rw [hr, hr'] at h; cases h

/-- The channel of the endpoint that makes the call. -/
def Act.channel (w : World μ) : Act μ → Option Bytes
  | .construct channel _ => some channel
  | .sendMessage i _ | .sendMessages i | .receiveMessages i | .distribute i =>
    w.endpoints[i]?.map Endpoint.channel

namespace World

/-- The message was pushed on an endpoint of channel `c` that sends through the map `d`. -/
def From (w : World μ) (c : Bytes) (d : Direction) (m : Entry μ) : Prop :=
  m ∈ w.pushed ∧ ∃ o, w.endpoints[m.origin]? = some o ∧ o.channel = c ∧ o.sends = d

/-- The messages of an endpoint have the origin that their place requires. -/
structure Clean (w : World μ) (e : Endpoint (Entry μ)) : Prop where
  outbox : ∀ m ∈ e.outbox, w.From e.channel e.sends m
  inbox : ∀ m ∈ e.inbox, w.From e.channel e.receives m
  dispatched : ∀ m ∈ e.dispatched, w.From e.channel e.receives m

/-- Every channel in use has its queues, and every message is where its origin requires. -/
structure Isolated (w : World μ) : Prop where
  found : ∀ e ∈ w.endpoints, ∀ d, ((w.maps.get d).lookup e.channel).isSome
  shared : ∀ d c q, (w.maps.get d).lookup c = some q → ∀ m ∈ q, w.From c d m
  clean : ∀ e ∈ w.endpoints, w.Clean e

theorem isolated_init : Isolated (init : World μ) where
  found e he := absurd he List.not_mem_nil
  shared d c q h := by cases d <;> cases h
  clean e he := absurd he List.not_mem_nil

/-- No endpoint changes its channel or its role, and no push is forgotten. -/
structure Grows (w w' : World μ) : Prop where
  pushed : ∀ m ∈ w.pushed, m ∈ w'.pushed
  endpoint : ∀ (j : ℕ) (o : Endpoint (Entry μ)), w.endpoints[j]? = some o → ∃ o',
    w'.endpoints[j]? = some o' ∧ o'.channel = o.channel ∧ o'.connectionRole = o.connectionRole

theorem From.mono {w w' : World μ} (h : Grows w w') {c : Bytes} {d : Direction} {m : Entry μ}
    (hm : w.From c d m) : w'.From c d m := by
  obtain ⟨hp, o, ho, hc, hd⟩ := hm
  obtain ⟨o', ho', hc', hr'⟩ := h.endpoint _ o ho
  refine ⟨h.pushed m hp, o', ho', hc'.trans hc, ?_⟩
  rw [← hd, Endpoint.sends, Endpoint.sends, hr']

theorem Clean.mono {w w' : World μ} (h : Grows w w') {e : Endpoint (Entry μ)} (he : w.Clean e) :
    w'.Clean e :=
  ⟨fun m hm => (he.outbox m hm).mono h, fun m hm => (he.inbox m hm).mono h,
    fun m hm => (he.dispatched m hm).mono h⟩

theorem grows_set {w : World μ} {i : ℕ} {e : Endpoint (Entry μ)} {pushed : List (Entry μ)}
    (maps : Maps (Entry μ)) (e' : Endpoint (Entry μ)) (he : w.endpoints[i]? = some e)
    (hc : e'.channel = e.channel) (hr : e'.connectionRole = e.connectionRole)
    (hp : ∀ m ∈ w.pushed, m ∈ pushed) :
    Grows w ⟨maps, w.endpoints.set i e', pushed⟩ := by
  refine ⟨hp, fun j o ho => ?_⟩
  by_cases hij : i = j
  · subst hij
    have ho' : e = o := Option.some.inj (he.symm.trans ho)
    subst ho'
    exact ⟨e', getElem?_set_self he e', hc, hr⟩
  · exact ⟨o, getElem?_set_of_ne ho hij, rfl, rfl⟩

/-- A call of one endpoint replaces the endpoint and the maps. -/
theorem isolated_set {w w' : World μ} {i : ℕ} {e' : Endpoint (Entry μ)} (hw : w.Isolated)
    (hg : Grows w w') (hends : w'.endpoints = w.endpoints.set i e')
    (hsome : ∀ e ∈ w.endpoints, ∀ d, ((w'.maps.get d).lookup e.channel).isSome)
    (he' : ∃ e ∈ w.endpoints, e'.channel = e.channel)
    (hshared : ∀ d c q, (w'.maps.get d).lookup c = some q → ∀ m ∈ q, w'.From c d m)
    (hclean : w'.Clean e') : w'.Isolated := by
  refine ⟨fun e he d => ?_, hshared, fun e he => ?_⟩
  · rw [hends] at he
    rcases List.mem_or_eq_of_mem_set he with he | rfl
    · exact hsome e he d
    · obtain ⟨e₀, he₀, hc⟩ := he'
      rw [hc]
      exact hsome e₀ he₀ d
  · rw [hends] at he
    rcases List.mem_or_eq_of_mem_set he with he | rfl
    · exact (hw.clean e he).mono hg
    · exact hclean

/-- An exchange puts messages of the right origin on either side. -/
theorem Isolated.exchange {w : World μ} (hw : w.Isolated) {c : Bytes} {d : Direction}
    {queue queue' : List (Entry μ)} {map : Messages (Entry μ)}
    (hx : Exchanged (w.maps.get d) c queue queue' map) (hq : ∀ m ∈ queue, w.From c d m) :
    (∀ m ∈ queue', w.From c d m) ∧
      ∀ d' c' q, ((w.maps.set map d).get d').lookup c' = some q → ∀ m ∈ q, w.From c' d' m := by
  constructor
  · cases hx with
    | unchanged => exact hq
    | swapped hl => exact hw.shared d c _ hl
  · intro d' c' q hl
    by_cases hd : d' = d
    · subst hd
      rw [Maps.get_set_self] at hl
      cases hx with
      | unchanged => exact hw.shared d' c' q hl
      | swapped =>
        by_cases hc : c' = c
        · subst hc
          rw [AList.lookup_insert] at hl
          exact Option.some.inj hl ▸ hq
        · rw [AList.lookup_insert_ne hc] at hl
          exact hw.shared d' c' q hl
    · rw [Maps.get_set_of_ne _ _ hd] at hl
      exact hw.shared d' c' q hl

/-- An exchange leaves the queues of other channels. -/
theorem lookup_exchange_of_ne {w : World μ} {c c' : Bytes} {d d' : Direction}
    {queue queue' : List (Entry μ)} {map : Messages (Entry μ)}
    (hx : Exchanged (w.maps.get d) c queue queue' map) (hc : c' ≠ c) :
    ((w.maps.set map d).get d').lookup c' = (w.maps.get d').lookup c' := by
  by_cases hd : d' = d
  · subst hd
    rw [Maps.get_set_self, hx.lookup_of_ne hc]
  · rw [Maps.get_set_of_ne _ _ hd]

theorem isSome_lookup_exchange {w : World μ} {c c' : Bytes} {d d' : Direction}
    {queue queue' : List (Entry μ)} {map : Messages (Entry μ)}
    (hx : Exchanged (w.maps.get d) c queue queue' map)
    (h : ((w.maps.get d').lookup c').isSome) :
    (((w.maps.set map d).get d').lookup c').isSome := by
  by_cases hd : d' = d
  · subst hd
    rw [Maps.get_set_self]
    exact hx.isSome_lookup h
  · rwa [Maps.get_set_of_ne _ _ hd]

theorem get_construct (w : World μ) (channel : Bytes) (role : ConnectionRole) (d : Direction) :
    (w.construct channel role).maps.get d = ensureChannelExists channel (w.maps.get d) := by
  cases d <;> rfl

theorem grows_construct (w : World μ) (channel : Bytes) (role : ConnectionRole) :
    Grows w (w.construct channel role) := by
  refine ⟨fun m hm => hm, fun j o ho => ⟨o, ?_, rfl, rfl⟩⟩
  have hlt : j < w.endpoints.length := (List.getElem?_eq_some_iff.mp ho).1
  rw [construct, List.getElem?_append_left hlt]
  exact ho

theorem isolated_construct {w : World μ} (hw : w.Isolated) (channel : Bytes)
    (role : ConnectionRole) : (w.construct channel role).Isolated := by
  have hg := grows_construct w channel role
  refine ⟨fun e he d => ?_, fun d c q hl m hm => ?_, fun e he => ?_⟩
  · rw [get_construct]
    rcases List.mem_append.mp he with he | he
    · rw [lookup_ensureChannelExists_of_isSome (hw.found e he d)]
      exact hw.found e he d
    · rw [List.mem_singleton.mp he]
      exact isSome_lookup_ensureChannelExists channel _
  · rw [get_construct] at hl
    rcases lookup_ensureChannelExists hl with hl | ⟨rfl, -⟩
    · exact (hw.shared d c q hl m hm).mono hg
    · exact absurd hm List.not_mem_nil
  · rcases List.mem_append.mp he with he | he
    · exact (hw.clean e he).mono hg
    · rw [List.mem_singleton.mp he]
      constructor <;> exact fun m hm => absurd hm List.not_mem_nil

/-- **One call keeps every message where its origin requires.** -/
theorem isolated_step {w w' : World μ} {a : Act μ} (hw : w.Isolated) (h : w.step a = some w') :
    w'.Isolated := by
  cases step_effect h with
  | construct channel role => exact isolated_construct hw channel role
  | @sendMessage i e he message =>
    have hmem := List.mem_of_getElem? he
    have hg := grows_set w.maps
      { e with outbox := e.outbox ++ [⟨i, w.pushed.length, message⟩] } he rfl rfl
      fun m (hm : m ∈ w.pushed) => List.mem_append_left [⟨i, w.pushed.length, message⟩] hm
    have hcl := (hw.clean e hmem).mono hg
    refine isolated_set hw hg rfl hw.found ⟨e, hmem, rfl⟩
      (fun d c q hl m hm => (hw.shared d c q hl m hm).mono hg)
      ⟨fun m hm => ?_, hcl.inbox, hcl.dispatched⟩
    rcases List.mem_append.mp hm with hm | hm
    · exact hcl.outbox m hm
    · obtain ⟨o, ho, hc, hr⟩ := hg.endpoint i e he
      rw [List.mem_singleton.mp hm]
      exact ⟨List.mem_append_right _ (List.mem_singleton.mpr rfl), o, ho, hc, by
        rw [Endpoint.sends, Endpoint.sends, hr]⟩
  | @sendMessages i e he outbox map hx =>
    have hmem := List.mem_of_getElem? he
    have hcl := hw.clean e hmem
    obtain ⟨hq, hs⟩ := hw.exchange hx hcl.outbox
    have hg := grows_set (w.maps.set map e.sends) { e with outbox } he rfl rfl
      fun m (hm : m ∈ w.pushed) => hm
    refine isolated_set hw hg rfl (fun e' he' d => isSome_lookup_exchange hx (hw.found e' he' d))
      ⟨e, hmem, rfl⟩ (fun d c q hl m hm => (hs d c q hl m hm).mono hg) ?_
    exact ⟨fun m hm => (hq m hm).mono hg, (hcl.mono hg).inbox, (hcl.mono hg).dispatched⟩
  | @receiveMessages i e he inbox map hx =>
    have hmem := List.mem_of_getElem? he
    have hcl := hw.clean e hmem
    obtain ⟨hq, hs⟩ := hw.exchange hx hcl.inbox
    have hg := grows_set (w.maps.set map e.receives) { e with inbox } he rfl rfl
      fun m (hm : m ∈ w.pushed) => hm
    refine isolated_set hw hg rfl (fun e' he' d => isSome_lookup_exchange hx (hw.found e' he' d))
      ⟨e, hmem, rfl⟩ (fun d c q hl m hm => (hs d c q hl m hm).mono hg) ?_
    exact ⟨(hcl.mono hg).outbox, fun m hm => (hq m hm).mono hg, (hcl.mono hg).dispatched⟩
  | @distribute i e he =>
    have hmem := List.mem_of_getElem? he
    have hg := grows_set w.maps
      { e with inbox := [], dispatched := e.dispatched ++ e.inbox } he rfl rfl
      fun m (hm : m ∈ w.pushed) => hm
    have hcl := (hw.clean e hmem).mono hg
    refine isolated_set hw hg rfl hw.found ⟨e, hmem, rfl⟩
      (fun d c q hl m hm => (hw.shared d c q hl m hm).mono hg)
      ⟨hcl.outbox, fun m hm => absurd hm List.not_mem_nil, fun m hm => ?_⟩
    rcases List.mem_append.mp hm with hm | hm
    · exact hcl.dispatched m hm
    · exact hcl.inbox m hm

/-- A call leaves the queues of other channels. -/
theorem lookup_of_ne {w w' : World μ} {a : Act μ} {c₀ c : Bytes} (h : w.step a = some w')
    (ha : a.channel w = some c₀) (hc : c ≠ c₀) (d : Direction) :
    (w'.maps.get d).lookup c = (w.maps.get d).lookup c := by
  cases step_effect h with
  | construct channel role =>
    cases ha
    rw [get_construct]
    exact lookup_ensureChannelExists_of_ne hc
  | sendMessage => rfl
  | sendMessages he hx =>
    rw [Act.channel, he] at ha
    cases ha
    exact lookup_exchange_of_ne hx hc
  | receiveMessages he hx =>
    rw [Act.channel, he] at ha
    cases ha
    exact lookup_exchange_of_ne hx hc
  | distribute => rfl

/-- **Channels and directions are isolated.** After every run, with any number of endpoints in any
roles on any channels: a message dispatched at an endpoint was pushed on an endpoint of the same
channel and the opposite role; a call of an endpoint leaves the queues of every other channel; and
the `find` of each endpoint's channel succeeds in both maps. -/
theorem isolated {w : World μ} {as : List (Act μ)} (h : exec step init as = some w) :
    (∀ e ∈ w.endpoints, ∀ m ∈ e.dispatched, m ∈ w.pushed ∧ ∃ o, w.endpoints[m.origin]? = some o ∧
        o.channel = e.channel ∧ o.connectionRole = opposite e.connectionRole) ∧
      (∀ a w' c₀, w.step a = some w' → a.channel w = some c₀ →
        ∀ c, c ≠ c₀ → ∀ d, (w'.maps.get d).lookup c = (w.maps.get d).lookup c) ∧
      ∀ e ∈ w.endpoints, ∀ d, (w.maps.get d).lookup e.channel ≠ none := by
  have hw : w.Isolated := exec_invariant (fun _ _ _ => isolated_step) h isolated_init
  refine ⟨fun e he m hm => ?_, ?_, fun e he d => Option.isSome_iff_ne_none.mp (hw.found e he d)⟩
  · obtain ⟨hp, o, ho, hc, hd⟩ := (hw.clean e he).dispatched m hm
    exact ⟨hp, o, ho, hc, Endpoint.role_of_sends hd⟩
  · intro a w' c₀ hstep ha c hc d
    exact lookup_of_ne hstep ha hc d

/-- Two channels, one of them with a client before its server. -/
theorem isolated_two :
    let map : Messages (Entry ℕ) := (AList.singleton [100] []).insert [99] []
    let w : World ℕ := ⟨⟨map, map⟩, [⟨[100], .client, by decide, [], [], []⟩,
      ⟨[99], .server, by decide, [], [], [⟨2, 0, 5⟩]⟩, ⟨[99], .client, by decide, [], [], []⟩],
      [⟨2, 0, 5⟩]⟩
    (∀ e ∈ w.endpoints, ∀ m ∈ e.dispatched, m ∈ w.pushed ∧ ∃ o, w.endpoints[m.origin]? = some o ∧
        o.channel = e.channel ∧ o.connectionRole = opposite e.connectionRole) ∧
      (∀ a w' c₀, w.step a = some w' → a.channel w = some c₀ →
        ∀ c, c ≠ c₀ → ∀ d, (w'.maps.get d).lookup c = (w.maps.get d).lookup c) ∧
      ∀ e ∈ w.endpoints, ∀ d, (w.maps.get d).lookup e.channel ≠ none :=
  isolated (show exec step init [.construct [100] .client, .construct [99] .auto,
    .construct [99] .auto, .sendMessage 2 5, .sendMessages 2, .receiveMessages 1,
    .distribute 1] = some _ from rfl)

end World

end Petunia.Inprocess
