import Petunia.Ipc.Exclusive

set_option autoImplicit false

/-!
# Sockets with several connections

Connections between `NN_PAIR` sockets. A socket refuses all peers but one, and a peer that is
refused has started its own session before it learns of it.

* `Net`, `Net.step`: sockets with any number of connections between them, which may break;
* `Net.Inv`, `Net.Moves.inv`: every connection delivers, and every socket knows its ends;
* **`exclusive`**: the sessions of a socket follow one another;
* **`first_only`**: without a limit on the messages, the first peer is the only one until its
  connection breaks.
-/

namespace Petunia.Ipc

open CTypes Lts

/-! ## Sockets and connections -/

/-- An end of a connection. -/
abbrev Pipe (κ : Type*) := κ × Bool

/-- The other end. -/
def Pipe.peer {κ : Type*} (p : Pipe κ) : Pipe κ := (p.1, !p.2)

/-- Sockets, and connections between them. -/
structure Net (σ κ : Type*) where
  sock : σ → Socket (Pipe κ)
  ends : Pipe κ → End

/-- A step at one end. -/
inductive NetAct (κ : Type*)
  | act (p : Pipe κ) (a : End.Act)
  | transfer (p : Pipe κ) (n : ℕ)
  /-- `NN_USOCK_ERROR`, and `NN_USOCK_SHUTDOWN` of an active session. -/
  | close (p : Pipe κ)

namespace Net

variable {σ κ : Type*} [DecidableEq σ] [DecidableEq κ] (home : Pipe κ → σ)

/-- The end `p` and its socket after a step. -/
def set (net : Net σ κ) (p : Pipe κ) (e : End) (k : Socket (Pipe κ)) : Net σ κ :=
  ⟨Function.update net.sock (home p) k, Function.update net.ends p e⟩

/-- Bytes on their way to the other end. -/
def transfer (ends : Pipe κ → End) (p : Pipe κ) (n : ℕ) (q : Pipe κ) : End :=
  if q = p then { ends q with outgoing := (ends q).outgoing.drop n }
  else if q = p.peer then
    { ends q with incoming := (ends q).incoming ++ (ends p).outgoing.take n }
  else ends q

/-- One step, where `home p` is the socket of an end `p`; the state is `none` after a failed
assertion. The ends of a socket take their steps in any order, also between the events of one. -/
def step : Option (Net σ κ) → NetAct κ → Option (Option (Net σ κ))
  | none, _ => none
  | some net, .act p a =>
    let k := net.sock (home p)
    let e := net.ends p
    if a.refused k.excl p then
      if e.events = [] ∧ e.state = .stopping then some (some (net.set home p e.close k)) else none
    else if a.ready k.excl p then
      (e.act a).map fun r => r.bind fun e' =>
        (exclAct k.excl p e e' a).map fun excl => net.set home p e' (k.after p e a excl)
    else none
  | some net, .transfer p n => some (some ⟨net.sock, transfer net.ends p n⟩)
  | some net, .close p =>
    let k := net.sock (home p)
    let e := net.ends p
    -- the header exchange ignores the socket while its timer stops
    if e.events = [] ∧ e.state ≠ .stopping ∧ e.state ≠ .done then
      some ((pipebaseStop k.excl e).map fun excl => net.set home p e.close { k with excl })
    else none

/-- Sockets that have just been connected. -/
def init (rcvmaxsize : σ → ℤ) : Net σ κ :=
  ⟨fun _ => .init, fun p => .init xpair (rcvmaxsize (home p))⟩

/-! ## Every run -/

variable {net : Net σ κ} {p q : Pipe κ} {e : End} {a : End.Act}

/-- Each connection delivers in both directions, and each socket knows its ends. -/
structure Inv (net : Net σ κ) : Prop where
  valid : ∀ p, (net.ends p).Valid
  delivers : ∀ p, Delivers (net.ends p) (net.ends p.peer)
  sound : ∀ s, (net.sock s).Sound (home · = s) net.ends

omit [DecidableEq κ] in
theorem peer_peer (p : Pipe κ) : p.peer.peer = p := Prod.ext rfl (Bool.not_not p.2)

omit [DecidableEq κ] in
theorem peer_ne (p : Pipe κ) : p.peer ≠ p := fun h => Bool.not_ne_self p.2 (congrArg Prod.snd h)

variable {home}

/-- The ends after a step of one of them. -/
theorem Inv.set (h : Inv home net) (hv : e.Valid) (hout : Delivers e (net.ends p.peer))
    (hin : Delivers (net.ends p.peer) e) {k : Socket (Pipe κ)}
    (hk : k.Sound (home · = home p) (Function.update net.ends p e)) :
    Inv home (net.set home p e k) where
  valid q := by
    show (Function.update net.ends p e q).Valid
    by_cases hq : q = p
    · rw [hq, Function.update_self]
      exact hv
    · rw [Function.update_of_ne hq]
      exact h.valid q
  delivers q := by
    show Delivers (Function.update net.ends p e q) (Function.update net.ends p e q.peer)
    by_cases hq : q = p
    · rw [hq, Function.update_self, Function.update_of_ne (peer_ne p)]
      exact hout
    · rw [Function.update_of_ne hq]
      by_cases hqp : q.peer = p
      · rw [hqp, Function.update_self, ← peer_peer q, hqp]
        exact hin
      · rw [Function.update_of_ne hqp]
        exact h.delivers q
  sound s := by
    show (Function.update net.sock (home p) k s).Sound _ (Function.update net.ends p e)
    by_cases hs : s = home p
    · rw [hs, Function.update_self]
      exact hk
    · rw [Function.update_of_ne hs]
      refine (h.sound s).congr fun q hq => ?_
      have hqp : q ≠ p := fun hqp => hs (hq.symm.trans (congrArg home hqp))
      rw [Function.update_of_ne hqp]

omit [DecidableEq σ] [DecidableEq κ] in
/-- Both directions of a connection. -/
theorem Inv.delivers' (h : Inv home net) (p : Pipe κ) :
    Delivers (net.ends p.peer) (net.ends p) := by
  have := h.delivers p.peer
  rwa [peer_peer] at this

/-- **A session ends**, or does not start. -/
theorem Inv.close (h : Inv home net) (hev : (net.ends p).events = []) {k : Socket (Pipe κ)}
    (hk : k.Sound (home · = home p) (Function.update net.ends p (net.ends p).close)) :
    Inv home (net.set home p (net.ends p).close k) :=
  h.set ((h.valid p).close hev) (h.delivers p).close_sender (h.delivers' p).close_receiver hk

theorem transfer_self (ends : Pipe κ → End) (p : Pipe κ) (n : ℕ) : transfer ends p n p =
    { ends p with outgoing := (ends p).outgoing.drop n } :=
  if_pos rfl

theorem transfer_peer (ends : Pipe κ → End) (p : Pipe κ) (n : ℕ) : transfer ends p n p.peer =
    { ends p.peer with incoming := (ends p.peer).incoming ++ (ends p).outgoing.take n } :=
  (if_neg (peer_ne p)).trans (if_pos rfl)

theorem transfer_of_ne {ends : Pipe κ → End} {n : ℕ} (hq : q ≠ p) (hq' : q ≠ p.peer) :
    transfer ends p n q = ends q :=
  (if_neg hq).trans (if_neg hq')

theorem transfer_eq (ends : Pipe κ → End) (p : Pipe κ) (n : ℕ) (q : Pipe κ) :
    ∃ outgoing incoming, transfer ends p n q = { ends q with outgoing, incoming } := by
  unfold transfer
  split_ifs
  · exact ⟨_, (ends q).incoming, rfl⟩
  · exact ⟨(ends q).outgoing, _, rfl⟩
  · exact ⟨(ends q).outgoing, (ends q).incoming, rfl⟩

omit [DecidableEq σ] in
/-- Bytes cross. -/
theorem Inv.transfer (h : Inv home net) (p : Pipe κ) (n : ℕ) :
    Inv home ⟨net.sock, Net.transfer net.ends p n⟩ where
  valid q := by
    obtain ⟨outgoing, incoming, hq⟩ := transfer_eq net.ends p n q
    show (Net.transfer net.ends p n q).Valid
    rw [hq]
    exact (h.valid q).kernel outgoing incoming
  delivers q := by
    show Delivers (Net.transfer net.ends p n q) (Net.transfer net.ends p n q.peer)
    by_cases hq : q = p
    · rw [hq, transfer_self, transfer_peer]
      exact (h.delivers p).transfer n
    by_cases hq' : q = p.peer
    · rw [hq', peer_peer, transfer_self, transfer_peer]
      exact ⟨(h.delivers' p).stream, (h.delivers' p).parsed.congr rfl⟩
    · have hne : q.peer ≠ p := fun h => hq' (h ▸ (peer_peer q).symm)
      have hne' : q.peer ≠ p.peer := fun h => hq (by rw [← peer_peer q, h, peer_peer])
      rw [transfer_of_ne hq hq', transfer_of_ne hne hne']
      exact h.delivers q
  sound s := by
    refine (h.sound s).congr fun q _ => ?_
    obtain ⟨outgoing, incoming, hq⟩ := transfer_eq net.ends p n q
    have hends : (⟨net.sock, Net.transfer net.ends p n⟩ : Net σ κ).ends q = _ := hq
    rw [hends]

variable {net' : Net σ κ} {act : NetAct κ}

variable (home) in
/-- What one step does. -/
inductive Moves (net net' : Net σ κ) : NetAct κ → Prop
  | act {p : Pipe κ} {a : End.Act} {e : End} {excl : Excl (Pipe κ)}
    (he : (net.ends p).Effect a e) (hr : a.refused (net.sock (home p)).excl p = false)
    (hex : exclAct (net.sock (home p)).excl p (net.ends p) e a = some excl)
    (hnet : net' = net.set home p e ((net.sock (home p)).after p (net.ends p) a excl)) :
    Moves net net' (.act p a)
  /-- The socket has its pipe already. -/
  | refused {p : Pipe κ} {a : End.Act} (hev : (net.ends p).events = [])
    (hs : (net.ends p).state = .stopping)
    (hnet : net' = net.set home p (net.ends p).close (net.sock (home p))) :
    Moves net net' (.act p a)
  | transfer (p : Pipe κ) (n : ℕ) (hnet : net' = ⟨net.sock, Net.transfer net.ends p n⟩) :
    Moves net net' (.transfer p n)
  | close {p : Pipe κ} {excl : Excl (Pipe κ)} (hev : (net.ends p).events = [])
    (hd : (net.ends p).state ≠ .done)
    (hex : pipebaseStop (net.sock (home p)).excl (net.ends p) = some excl)
    (hnet : net' = net.set home p (net.ends p).close { net.sock (home p) with excl }) :
    Moves net net' (.close p)

/-- **A step fails no assertion.** -/
theorem step_moves {r : Option (Net σ κ)} (h : Inv home net)
    (hr : step home (some net) act = some r) : ∃ net', r = some net' ∧ Moves home net net' act := by
  cases act with
  | transfer p n =>
    obtain rfl := (Option.some.inj hr).symm
    exact ⟨_, rfl, .transfer p n rfl⟩
  | close p =>
    simp only [step] at hr
    split_ifs at hr with hen
    obtain rfl := (Option.some.inj hr).symm
    obtain ⟨excl, hex⟩ := (h.sound (home p)).exists_pipebaseStop rfl
    rw [hex]
    exact ⟨_, rfl, .close hen.1 hen.2.2 hex rfl⟩
  | act p a =>
    simp only [step] at hr
    split_ifs at hr with href hen hready
    · obtain rfl := (Option.some.inj hr).symm
      exact ⟨_, rfl, .refused hen.1 hen.2 rfl⟩
    · obtain ⟨o, ho, rfl⟩ := Option.map_eq_some_iff.mp hr
      have hv := h.valid p
      have hr' := (Bool.not_eq_true _).mp href
      obtain ⟨e, rfl, he⟩ := End.act_effect hv ((h.delivers' p).head_eq hv) ho
      obtain ⟨excl, hex, -⟩ := (h.sound (home p)).step rfl hv he hr'
      rw [Option.bind_some, hex]
      exact ⟨_, rfl, .act he hr' hex rfl⟩

/-- **A step keeps all this.** -/
theorem Moves.inv (hm : Moves home net net' act) (h : Inv home net) : Inv home net' := by
  cases hm with
  | @act p a e excl he hr hex hnet =>
    have hv := h.valid p
    obtain ⟨excl', hex', hsound⟩ := (h.sound (home p)).step rfl hv he hr
    obtain rfl := Option.some.inj (hex.symm.trans hex')
    exact hnet ▸ h.set (he.valid hv) ((h.delivers p).send he) ((h.delivers' p).receive hv he) hsound
  | @refused p a hev hs hnet =>
    have hna : (net.ends p).state ≠ .active := fun ha => nomatch hs.symm.trans ha
    have hn : p ∉ (net.sock (home p)).started := fun hp => by
      rcases ((h.sound (home p)).mem p hp).2 with ha | hd
      · exact hna ha
      · cases hs.symm.trans hd
    exact hnet ▸ h.close hev ((h.sound (home p)).idle hn hna nofun rfl rfl)
  | transfer p n hnet => exact hnet ▸ h.transfer p n
  | @close p excl hev hd hex hnet =>
    exact hnet ▸ h.close hev ((h.sound (home p)).close rfl hd hex)

omit [DecidableEq σ] [DecidableEq κ] in
theorem inv_init (rcvmaxsize : σ → ℤ) : Inv home (init home rcvmaxsize : Net σ κ) where
  valid p := End.valid_init xpair (rcvmaxsize (home p))
  delivers p := (Conn.linked_init (fun _ => xpair) (fun x => rcvmaxsize (home (p.1, x))) p.2).delivers
  sound _ :=
    { pipe := fun _ => iff_of_false nofun fun h => nomatch h.2
      excl := nofun
      free := fun _ => rfl
      nodup := List.nodup_nil
      mem := nofun
      last := nofun
      fresh := fun _ _ _ => ⟨rfl, rfl⟩
      sent := rfl
      received := rfl }

variable {rcvmaxsize : σ → ℤ} {as : List (NetAct κ)} {r : Option (Net σ κ)}

/-- **No run fails an assertion.** -/
theorem inv_exec (h : exec (step home) (some (init home rcvmaxsize)) as = some r) :
    ∃ net, r = some net ∧ Inv home net := by
  refine exec_invariant (I := fun r => ∃ net, r = some net ∧ Inv home net) (fun s act t hs hstep => ?_)
    h ⟨_, rfl, inv_init rcvmaxsize⟩
  obtain ⟨net, rfl, hinv⟩ := hs
  obtain ⟨net', rfl, hm⟩ := step_moves hinv hstep
  exact ⟨net', rfl, hm.inv hinv⟩

/-- **The sessions of a socket follow one another.** With any connections between any sockets,
whatever the order of their steps and whichever break, no assertion fails. What a socket has handed
out are, session by session in the order in which they have started, the first messages that the
peer of the session has sent; what it has sent has gone to these peers likewise. Only the last
session may be active, and an end whose session has not started has exchanged nothing. -/
theorem exclusive (h : exec (step home) (some (init home rcvmaxsize)) as = some r) :
    ∃ net, r = some net ∧ ∀ s,
      (net.sock s).received = (net.sock s).started.flatMap (fun p => (net.ends p).taken) ∧
      (net.sock s).sent = (net.sock s).started.flatMap (fun p => (net.ends p).sent) ∧
      (net.sock s).started.Nodup ∧
      ∀ p, home p = s → (net.ends p).taken <+: (net.ends p.peer).sent.map Payload.bytes ∧
        ((net.ends p).state = .active → (net.sock s).started.getLast? = some p) ∧
        (p ∉ (net.sock s).started → (net.ends p).sent = [] ∧ (net.ends p).taken = []) := by
  obtain ⟨net, rfl, hinv⟩ := inv_exec h
  refine ⟨net, rfl, fun s => ?_⟩
  have hk := hinv.sound s
  refine ⟨hk.received, hk.sent, hk.nodup, fun p hp => ⟨?_, fun hs => ?_, hk.fresh p hp⟩⟩
  · obtain ⟨ps, rest, hsent, ht⟩ := (hinv.delivers' p).parsed.taken
    exact ⟨rest.map Payload.bytes, by rw [ht, hsent, List.map_append]⟩
  · exact hk.last p ((hk.pipe p).mpr ⟨hp, hs⟩)

/-- A step of one connection. -/
def ofConn (i : κ) : ConnAct → NetAct κ
  | .act x a => .act (i, x) a
  | .transfer x n => .transfer (i, x) n
  | .fail x _ => .close (i, x)

/-- The socket `0` with a peer on each of two connections. -/
def star (p : Pipe Bool) : ℕ := if p.2 then 0 else if p.1 then 2 else 1

/-- The first peer gets a message through. The second is refused and sends one all the same. -/
def twoPeers : List (NetAct Bool) :=
  Conn.oneTaken.map (ofConn false) ++ Conn.exchange.dropLast.map (ofConn true) ++
    [.act (true, false) (.send [] [43] (by decide) 10)]

theorem exclusive_twoPeers : ∃ net : Net ℕ Bool,
    exec (step star) (some (init star fun _ => -1)) twoPeers = some (some net) ∧
      (net.sock 0).started = [(false, true)] ∧
      (net.sock 0).received = (net.sock 0).started.flatMap (fun p => (net.ends p).taken) ∧
      (net.sock 2).sent.map Payload.bytes = [[43]] ∧
      ((net.ends (true, true)).sent = [] ∧ (net.ends (true, true)).taken = []) := by
  have hrun := eq_some_get (o := exec (step star) (some (init star fun _ => -1)) twoPeers)
    (by decide +kernel)
  obtain ⟨net, hnet, h⟩ := exclusive hrun
  have hlogs : ((exec (step star) (some (init star fun _ => -1)) twoPeers).bind id).map
      (fun net => ((net.sock 0).started, (net.sock 2).sent.map Payload.bytes)) =
      some ([(false, true)], [[43]]) := by
    decide +kernel
  rw [hrun, hnet] at hlogs
  obtain ⟨hstarted, hsent⟩ := Prod.mk.inj (Option.some.inj hlogs)
  refine ⟨net, hnet ▸ hrun, hstarted, (h 0).1, hsent, ((h 0).2.2.2 (true, true) rfl).2.2 ?_⟩
  rw [hstarted]
  decide

/-! ## The first peer -/

/-- The sessions of a socket that hands out messages of any size are all active. -/
structure Engaged (home : Pipe κ → σ) (s : σ) (net : Net σ κ) : Prop where
  limit : ∀ p, home p = s → (net.ends p).rcvmaxsize < 0
  active : ∀ p ∈ (net.sock s).started, (net.ends p).state = .active

/-- Without a limit a session goes on. -/
theorem active_of_effect {e' : End} (h : e.Effect a e') (hl : e.rcvmaxsize < 0)
    (hs : e.state = .active) : e'.state = .active := by
  cases h with
  | headerSent n hs' | headerRead n hs' => rw [hs] at hs'; cases hs'
  | started => rfl
  | tooLarge n hs' hev hc hb hsize => omega
  | _ => exact hs

/-- The sessions of a socket after a step at `p`. -/
theorem Engaged.set {s : σ} (h : Engaged home s net) (hinv : Inv home net)
    (hl : e.rcvmaxsize = (net.ends p).rcvmaxsize) {k : Socket (Pipe κ)}
    (hk : home p = s → ∀ q ∈ k.started, if q = p then e.state = .active else
      q ∈ (net.sock s).started) : Engaged home s (net.set home p e k) where
  limit q hq := by
    show (Function.update net.ends p e q).rcvmaxsize < 0
    by_cases hqp : q = p
    · rw [hqp, Function.update_self, hl]
      exact h.limit p (hqp ▸ hq)
    · rw [Function.update_of_ne hqp]
      exact h.limit q hq
  active q hq := by
    show (Function.update net.ends p e q).state = .active
    by_cases hp : home p = s
    · have hsock : (net.set home p e k).sock s = k := hp ▸ Function.update_self ..
      have := hk hp q (hsock ▸ hq)
      split_ifs at this with hqp
      · rwa [hqp, Function.update_self]
      · rw [Function.update_of_ne hqp]
        exact h.active q this
    · have hsock : (net.set home p e k).sock s = net.sock s := Function.update_of_ne (Ne.symm hp) ..
      rw [hsock] at hq
      have hqp : q ≠ p := fun hqp => hp (hqp ▸ ((hinv.sound s).mem q hq).1)
      rw [Function.update_of_ne hqp]
      exact h.active q hq

/-- **A step leaves the sessions of a socket active**, unless one of its connections breaks. -/
theorem Moves.engaged {s : σ} (hm : Moves home net net' act) (hinv : Inv home net)
    (h : Engaged home s net) (hc : ∀ p, act = .close p → home p ≠ s) : Engaged home s net' := by
  have hclose (p : Pipe κ) : (net.ends p).close.rcvmaxsize = (net.ends p).rcvmaxsize := rfl
  cases hm with
  | @act p a e excl he hr hex hnet =>
    refine hnet ▸ h.set hinv he.rcvmaxsize_eq fun hp q hq => ?_
    subst hp
    split_ifs with hqp
    · subst hqp
      rcases List.mem_append.mp hq with hq | hq
      · exact active_of_effect he (h.limit q rfl) (h.active q hq)
      · exact (exclAct_started (hinv.valid q) he (List.ne_nil_of_mem hq)).2.1
    · rcases List.mem_append.mp hq with hq | hq
      · exact hq
      · cases a with
        | stopped n => exact absurd (List.mem_singleton.mp hq) hqp
        | _ => cases hq
  | @refused p a hev hs hnet =>
    refine hnet ▸ h.set hinv (hclose p) fun hp q hq => ?_
    subst hp
    split_ifs with hqp
    · cases (hqp ▸ h.active q hq).symm.trans hs
    · exact hq
  | transfer p n hnet =>
    subst hnet
    refine ⟨fun q hq => ?_, fun q hq => ?_⟩
    · obtain ⟨outgoing, incoming, he⟩ := transfer_eq net.ends p n q
      show (Net.transfer net.ends p n q).rcvmaxsize < 0
      rw [he]
      exact h.limit q hq
    · obtain ⟨outgoing, incoming, he⟩ := transfer_eq net.ends p n q
      show (Net.transfer net.ends p n q).state = .active
      rw [he]
      exact h.active q hq
  | @close p excl hev hd hex hnet =>
    exact hnet ▸ h.set hinv (hclose p) fun hp => absurd hp (hc p rfl)

/-- **The first peer is the only one.** As long as no connection of a socket without a limit breaks,
it exchanges messages with the first peer whose session it has started, and with no other. -/
theorem first_only {s : σ} (h : exec (step home) (some (init home rcvmaxsize)) as = some r)
    (hl : rcvmaxsize s < 0) (hc : ∀ p, NetAct.close p ∈ as → home p ≠ s) :
    ∃ net, r = some net ∧ ((net.sock s).started = [] ∨ ∃ p, (net.sock s).started = [p] ∧
      (net.sock s).received = (net.ends p).taken ∧ (net.sock s).sent = (net.ends p).sent ∧
      ∀ q, home q = s → q ≠ p → (net.ends q).sent = [] ∧ (net.ends q).taken = []) := by
  have hrun : ∃ net, r = some net ∧ Inv home net ∧ Engaged home s net := by
    refine exec_invariant_along
      (C := fun _ act => ∀ p, act = .close p → home p ≠ s)
      (I := fun r => ∃ net, r = some net ∧ Inv home net ∧ Engaged home s net)
      (fun t act u hs hact hstep => ?_) h (along_of_forall fun act hact _ p hp => hc p (hp ▸ hact))
      ⟨_, rfl, inv_init rcvmaxsize, ⟨fun p hp => lt_of_eq_of_lt (congrArg rcvmaxsize hp) hl, nofun⟩⟩
    obtain ⟨net, rfl, hinv, hen⟩ := hs
    obtain ⟨net', rfl, hm⟩ := step_moves hinv hstep
    exact ⟨net', rfl, hm.inv hinv, hm.engaged hinv hen hact⟩
  obtain ⟨net, rfl, hinv, hen⟩ := hrun
  have hk := hinv.sound s
  refine ⟨net, rfl, ?_⟩
  cases hstarted : (net.sock s).started with
  | nil => exact .inl rfl
  | cons p l =>
    -- all sessions are active, and the socket has one pipe
    have hmem : p ∈ (net.sock s).started := hstarted ▸ List.mem_cons_self
    have hpipe : ∀ q ∈ (net.sock s).started, (net.sock s).excl.pipe = some q := fun q hq =>
      (hk.pipe q).mpr ⟨(hk.mem q hq).1, hen.active q hq⟩
    have hl : l = [] := List.eq_nil_iff_forall_not_mem.mpr fun q hq => by
      have hqp := (hpipe q (hstarted ▸ List.mem_cons_of_mem p hq)).symm.trans (hpipe p hmem)
      have hn := hk.nodup
      rw [hstarted] at hn
      exact (List.nodup_cons.mp hn).1 (Option.some.inj hqp ▸ hq)
    subst hl
    refine .inr ⟨p, rfl, ?_, ?_, fun q hq hqp => hk.fresh q hq ?_⟩
    · rw [hk.received, hstarted, List.flatMap_singleton]
    · rw [hk.sent, hstarted, List.flatMap_singleton]
    · rw [hstarted]
      exact fun h => hqp (List.mem_singleton.mp h)

theorem first_only_twoPeers : ∃ net : Net ℕ Bool,
    exec (step star) (some (init star fun _ => -1)) twoPeers = some (some net) ∧
      ((net.sock 0).started = [] ∨ ∃ p, (net.sock 0).started = [p] ∧
        (net.sock 0).received = (net.ends p).taken ∧ (net.sock 0).sent = (net.ends p).sent ∧
        ∀ q, star q = 0 → q ≠ p → (net.ends q).sent = [] ∧ (net.ends q).taken = []) := by
  have hrun := eq_some_get (o := exec (step star) (some (init star fun _ => -1)) twoPeers)
    (by decide +kernel)
  have hc : ∀ p, NetAct.close p ∈ twoPeers → star p ≠ 0 := by
    simp [twoPeers, Conn.oneTaken, Conn.oneMessage, Conn.exchange, ofConn]
  obtain ⟨net, hnet, h⟩ := first_only hrun (by decide) hc
  exact ⟨net, hnet ▸ hrun, h⟩

end Net

end Petunia.Ipc
