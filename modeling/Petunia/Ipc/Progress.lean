import Petunia.Ipc.Connection

set_option autoImplicit false

/-!
# Everything sent is delivered

As long as the ends accept each other, no message exceeds a limit and nothing ends a session from
outside, a connection can only come to rest when everything sent has been handed out. Every step
brings it closer to that: a byte gets further, an event is handled, or a message is taken.

* `End.potential`, `Conn.potential`: how far the connection is from rest;
* `End.Act.Productive`, `Conn.Productive`: the calls of the operating system transfer something;
* **`Effect.potential_lt`**, `Moves.potential_lt`: such a step makes the potential smaller;
* `Conn.Stuck`, **`Stuck.all_taken`**: without such a step everything has been handed out;
* **`drained`**: no schedule keeps the connection from delivering.
-/

namespace Petunia.Ipc

open CTypes Lts

/-! ## The potential -/

/-- What an event costs, with those that its handler raises. -/
def Event.weight : Event → ℕ
  | .sent => 2
  | .received => 3
  | .pipeOut => 1
  | .pipeIn => 2

namespace End

/-- How far an end is from rest: a byte counts for every place it still has to pass. -/
def potential (e : End) : ℕ :=
  12 * e.hdr.flatten.length + 8 * e.outgoing.length + 4 * (e.u.ahead.length + e.incoming.length) +
    (e.events.map Event.weight).sum + (if e.state = .active ∨ e.state = .done then 0 else 2) +
    if e.inpipe then 1 else 0

/-- A step on the way to rest: not a new message, and a call of the operating system transfers at
least one byte. -/
def Act.Productive (e : End) : Act → Prop
  | .fdOut n => n ≠ 0
  | .fdIn n => e.u.ahead ≠ [] ∨ (e.incoming ≠ [] ∧ n ≠ 0)
  | .send _ _ _ _ => False
  | .process _ | .stopped _ | .recv _ => True

variable {e e' : End} {a : Act}

theorem sum_receivedIf (want : ℕ) :
    ((receivedIf want).map Event.weight).sum = if want = 0 then 3 else 0 := by
  unfold receivedIf
  split_ifs <;> rfl

theorem sum_sentIf (hdr : List Bytes) : ((sentIf hdr).map Event.weight).sum ≤ 2 := by
  unfold sentIf
  split_ifs
  · exact Nat.le_refl 2
  · exact Nat.zero_le 2

/-- The bytes that a request leaves unread. -/
theorem Fills.unread {atHand incoming buf : Bytes} {len want : ℕ} {u : In}
    (h : Fills atHand len u incoming buf want) :
    buf.length + (u.ahead.length + incoming.length) = atHand.length := by
  have := congrArg List.length h.bytes
  rw [List.length_append, List.length_append] at this
  omega

/-- **Every productive step of an end brings it closer to rest.** -/
theorem Effect.potential_lt (hv : Valid e) (h : Effect e a e') (hp : a.Productive e) :
    e'.potential < e.potential := by
  cases h with
  | @headerSent u incoming buf want n hs hev hf =>
    have hu := hf.unread
    have hl := hf.length
    rw [List.length_append] at hu
    simp only [potential, hs, hev, sum_receivedIf, Event.weight, List.map_cons, List.map_nil,
      List.sum_cons, List.sum_nil, reduceCtorEq, or_self, if_false]
    split_ifs <;> omega
  | headerRead n hs hev hl hw =>
    simp only [potential, hs, hev, Event.weight, List.map_cons, List.map_nil, List.sum_cons,
      List.sum_nil, reduceCtorEq, or_self, if_false]
    split_ifs <;> omega
  | @started u incoming buf want n hs hev hf =>
    have hu := hf.unread
    have hl := hf.length
    rw [List.length_append] at hu
    simp only [potential, hs, hev, sum_receivedIf, Event.weight, List.map_cons, List.map_nil,
      List.sum_cons, List.sum_nil, reduceCtorEq, or_self, true_or, if_false, if_true]
    split_ifs <;> omega
  | written n hs hev =>
    simp only [potential, hs, hev, Event.weight, List.map_cons, List.map_nil, List.sum_cons,
      List.sum_nil, true_or, if_true]
    omega
  | outReady n hs hev ho =>
    simp only [potential, hs, hev, Event.weight, List.map_cons, List.sum_cons, true_or, if_true]
    omega
  | tooLarge n hs hev hc hl hsize =>
    have hi := (hv.of_received (by simp [hev])).2.1
    simp only [potential, hs, hev, hi, Event.weight, List.map_cons, List.map_nil, List.sum_cons,
      List.sum_nil, true_or, or_true, if_true]
    omega
  | empty n hs hev hc hl hsize =>
    simp only [potential, hs, hev, Event.weight, List.map_cons, List.map_nil, List.sum_cons,
      List.sum_nil, true_or, if_true]
    omega
  | @bodyAwaited u incoming buf want n hs hev hc hl hsize hf h0 =>
    have hu := hf.unread
    have hl := hf.length
    rw [List.length_append] at hu
    simp only [potential, hs, hev, sum_receivedIf, Event.weight, List.map_cons, List.map_nil,
      List.sum_cons, List.sum_nil, true_or, if_true]
    split_ifs <;> omega
  | bodyRead n hs hev hc hw =>
    simp only [potential, hs, hev, Event.weight, List.map_cons, List.map_nil, List.sum_cons,
      List.sum_nil, true_or, if_true]
    omega
  | inReady n hs hev hi hc =>
    simp only [potential, hs, hev, hi, Event.weight, List.map_cons, List.map_nil, List.sum_cons,
      List.sum_nil, true_or, if_true]
    omega
  | @fdOut outgoing hdr n hs hev hh hw hpos =>
    have hb := congrArg List.length hw.bytes
    have hlt := hpos hp
    have hsum := sum_sentIf hdr
    rw [List.length_append, List.length_append] at hb
    simp only [potential, hev, List.map_nil, List.sum_nil]
    omega
  | @fdIn u incoming buf want n hs hev hwant hf hpos =>
    have hu := hf.unread
    have hl := hf.length
    have hlt := hpos hp
    rw [List.length_append, List.length_append] at hu
    simp only [potential, hev, sum_receivedIf, List.map_nil, List.sum_nil]
    split_ifs <;> omega
  | send => exact hp.elim
  | @recv u incoming buf want n hs hev hi hc hf =>
    have hu := hf.unread
    have hl := hf.length
    rw [List.length_append] at hu
    simp only [potential, hs, hev, hi, sum_receivedIf, List.map_nil, List.sum_nil, true_or, if_true,
      Bool.false_eq_true, if_false]
    split_ifs <;> omega

/-- An end at rest awaits bytes. -/
theorem Valid.awaits (hv : Valid e) (hd : e.state ≠ .done) (hs : e.state ≠ .stopping)
    (hev : e.events = []) (hh : e.hdr = []) (hi : e.inpipe = false) :
    e.want ≠ 0 ∧ (e.state = .receiving ∧ e.buf.length + e.want = 8 ∨ e.state = .active) := by
  cases hv.inp with
  | waiting hs' =>
    -- the protocol header has been sent, but its event is not there
    cases hv.out with
    | header _ _ _ hiff =>
      have := hiff.mpr hh
      rw [hev] at this
      cases this
    | exchange hs'' => rw [hs'] at hs''; rcases hs'' with hs'' | hs'' <;> cases hs''
    | ready hs'' | writing hs'' | done hs'' => rw [hs'] at hs''; cases hs''
  | header hs' hi' hl hiff =>
    exact ⟨fun hw => by simpa [hev] using hiff.mpr hw, .inl ⟨hs', hl⟩⟩
  | exchanged hs' => exact absurd hs' hs
  | size hs' hi' hp hc hl hiff => exact ⟨fun hw => by simpa [hev] using hiff.mpr hw, .inr hs'⟩
  | body hs' hi' hp hc hiff => exact ⟨fun hw => by simpa [hev] using hiff.mpr hw, .inr hs'⟩
  | hasmsg hs' hp hc hw hno hiff => simpa [hev] using hiff.mpr hi
  | done hs' => exact absurd hs' hd

end End

namespace Conn

variable {c c' : Conn} {act : ConnAct}

/-- How far a connection is from rest. -/
def potential (c : Conn) : ℕ := (c false).potential + (c true).potential

theorem potential_eq (c : Conn) (x : Bool) : c.potential = (c x).potential + (c !x).potential := by
  cases x with
  | false => rfl
  | true => exact Nat.add_comm _ _

/-- A step on the way to rest. -/
def Productive (c : Conn) : ConnAct → Prop
  | .act x a => a.Productive (c x)
  | .transfer x n => (c x).outgoing ≠ [] ∧ n ≠ 0
  | .fail _ _ => False

/-- **Every productive step brings a connection closer to rest.** -/
theorem Moves.potential_lt (hm : c.Moves c' act) (hc : ∀ x, Linked (c x) (c !x))
    (hp : Productive c act) : c'.potential < c.potential := by
  cases hm with
  | act x hx hy =>
    rw [potential_eq c x, potential_eq c' x, hy]
    exact Nat.add_lt_add_right (hx.potential_lt (hc x).sender hp) _
  | transfer x n hx hy =>
    obtain ⟨hne, hn⟩ := hp
    have hlen := List.length_pos_iff.mpr hne
    rw [potential_eq c x, potential_eq c' x, hx, hy]
    simp only [End.potential, List.length_drop, List.length_append, List.length_take]
    omega
  | ignored | close => exact hp.elim

/-- Only a new message changes what has been sent. -/
theorem Moves.sent_eq (hm : c.Moves c' act) (hp : Productive c act) (y : Bool) :
    (c' y).sent = (c y).sent := by
  cases hm with
  | act x hx hy =>
    by_cases hyx : y = x
    · subst hyx
      refine hx.sent_eq ?_
      rintro sphdr body hlt n rfl
      exact hp
    · obtain rfl := Bool.eq_not.mpr hyx
      rw [hy]
  | transfer x n hx hy =>
    by_cases hyx : y = x
    · subst hyx
      rw [hx]
    · obtain rfl := Bool.eq_not.mpr hyx
      rw [hy]
  | ignored | close => exact hp.elim

/-! ## Rest -/

/-- No productive step is left. -/
def Stuck (c : Conn) : Prop := ∀ act, Productive c act → step (some c) act = none

namespace Stuck

variable {x : Bool} {a : End.Act}

theorem act_eq_none (h : Stuck c) (hp : a.Productive (c x)) : (c x).act a = none :=
  Option.map_eq_none_iff.mp (h (.act x a) hp)

theorem events_eq (h : Stuck c) (x : Bool) : (c x).events = [] := by
  cases hev : (c x).events with
  | nil => rfl
  | cons event events =>
    have := h.act_eq_none (x := x) (a := .process 0) trivial
    simp only [End.act, hev, reduceCtorEq] at this

theorem outgoing_eq (h : Stuck c) (x : Bool) : (c x).outgoing = [] := by
  by_contra hne
  cases h (.transfer x 1) ⟨hne, Nat.one_ne_zero⟩

theorem inpipe_eq (h : Stuck c) (x : Bool) : (c x).inpipe = false := by
  by_contra hne
  have := h.act_eq_none (x := x) (a := .recv 0) trivial
  rw [End.act, if_pos ⟨h.events_eq x, (Bool.not_eq_false _).mp hne⟩] at this
  cases this

theorem state_ne (h : Stuck c) (x : Bool) : (c x).state ≠ .stopping := by
  intro hs
  have := h.act_eq_none (x := x) (a := .stopped 0) trivial
  rw [End.act, if_pos ⟨h.events_eq x, hs⟩] at this
  cases this

theorem hdr_eq (h : Stuck c) (hd : (c x).state ≠ .done) : (c x).hdr = [] := by
  by_contra hne
  have := h.act_eq_none (x := x) (a := .fdOut 1) Nat.one_ne_zero
  rw [End.act, if_pos ⟨h.events_eq x, hd, hne⟩] at this
  cases this

/-- An end that awaits bytes finds none. -/
theorem unread_eq (h : Stuck c) (hd : (c x).state ≠ .done) (hw : (c x).want ≠ 0) :
    (c x).u.ahead = [] ∧ (c x).incoming = [] := by
  by_contra hne
  have hp : (End.Act.fdIn 1).Productive (c x) := by
    by_cases ha : (c x).u.ahead = []
    · exact .inr ⟨fun hi => hne ⟨ha, hi⟩, Nat.one_ne_zero⟩
    · exact .inl ha
  have := h.act_eq_none hp
  rw [End.act, if_pos ⟨h.events_eq x, hd, hw⟩] at this
  cases this

/-- **A connection at rest has handed out everything.** -/
theorem all_taken (h : Stuck c) (hc : ∀ x, Linked (c x) (c !x)) (hd : ∀ x, (c x).state ≠ .done)
    (x : Bool) : (c !x).taken = (c x).sent.map Payload.bytes := by
  obtain ⟨hw, hs⟩ := (hc x).receiver.awaits (hd !x) (h.state_ne !x) (h.events_eq !x)
    (h.hdr_eq (hd !x)) (h.inpipe_eq !x)
  obtain ⟨hahead, hin⟩ := h.unread_eq (hd !x) hw
  rcases hs with ⟨hs, hl⟩ | hs
  · -- the peer's protocol header has been transferred, so that all of it has been read
    have hst := (hc x).delivers.stream
    have hread : (c !x).read = [] := by
      cases (hc x).delivers.parsed with
      | header _ hr => exact hr
      | exchanged hs' | size hs' | body hs' | done hs' => rw [hs] at hs'; cases hs'
    rw [End.inBytes_eq, hread, hahead, hin, End.outBytes, h.outgoing_eq x, h.hdr_eq (hd x)] at hst
    have hlen := congrArg List.length hst
    simp only [List.length_append, length_protohdr, List.length_nil, List.flatten_nil] at hlen
    omega
  · have hq : c.Quiet x :=
      ⟨hs, h.events_eq !x, hahead, hin, h.outgoing_eq x, h.hdr_eq (hd x)⟩
    rw [hq.all_available hc, End.available_of_inpipe (h.inpipe_eq !x), List.append_nil]

end Stuck

instance (e : End) : ∀ a : End.Act, Decidable (a.Productive e)
  | .fdOut n => inferInstanceAs (Decidable (n ≠ 0))
  | .fdIn n => inferInstanceAs (Decidable (e.u.ahead ≠ [] ∨ (e.incoming ≠ [] ∧ n ≠ 0)))
  | .send _ _ _ _ => isFalse id
  | .process _ | .stopped _ | .recv _ => isTrue trivial

instance (c : Conn) : ∀ act, Decidable (Productive c act)
  | .act x a => inferInstanceAs (Decidable (a.Productive (c x)))
  | .transfer x n => inferInstanceAs (Decidable ((c x).outgoing ≠ [] ∧ n ≠ 0))
  | .fail _ _ => isFalse id

variable {socktype : Bool → Socktype} {rcvmaxsize : Bool → ℤ} {as bs : List ConnAct}

/-- Between peers, and with no message above a limit, no session ends for what it has read. -/
theorem state_ne_done {x : Bool} (hf : Faulted (c x) (c !x))
    (hconf : ∀ x, (c x).socktype = socktype x ∧ (c x).rcvmaxsize = rcvmaxsize x)
    (hpeer : ∀ x, sockIspeer (socktype x) (socktype !x).protocol = true)
    (hsize : ∀ x, ∀ p ∈ (c x).sent, 0 ≤ rcvmaxsize !x → p.bytes.length ≤ rcvmaxsize !x) :
    (c !x).state ≠ .done := by
  intro hd
  rcases hf hd with h | ⟨ps, p, rest, hsent, -, hp⟩
  · rw [(hconf !x).1, (hconf x).1] at h
    have := hpeer !x
    rw [Bool.not_not, h] at this
    cases this
  · refine hp ?_
    rw [End.Allows, (hconf !x).2]
    exact hsize x p (by rw [hsent]; simp)

/-- **No schedule keeps a connection from delivering.** From every state that two ends reach which
accept each other, with no message above a limit and nothing from outside that ends a session, a run
of productive steps comes to an end, and when no such step is left the other end has been handed
everything that was sent. -/
theorem drained (h : exec step (some (init socktype rcvmaxsize)) as = some (some c))
    (hf : ∀ x f, ConnAct.fail x f ∉ as)
    (hpeer : ∀ x, sockIspeer (socktype x) (socktype !x).protocol = true)
    (hsize : ∀ x, ∀ p ∈ (c x).sent, 0 ≤ rcvmaxsize !x → p.bytes.length ≤ rcvmaxsize !x)
    {r : Option Conn} (hb : exec step (some c) bs = some r)
    (hp : Along step (fun s act => ∀ c ∈ s, Productive c act) (some c) bs) :
    ∃ c', r = some c' ∧ bs.length ≤ c.potential ∧
      (Stuck c' → ∀ x, (c' !x).taken = (c x).sent.map Payload.bytes) := by
  obtain ⟨_, hs, hc, hconf⟩ := linked h
  obtain rfl := Option.some.inj hs
  obtain ⟨⟨c', rfl, hc', hconf', hsent, hfault⟩, hle⟩ := exec_measure
    (I := fun r => ∃ c', r = some c' ∧ (∀ x, Linked (c' x) (c' !x)) ∧
      (∀ x, (c' x).socktype = socktype x ∧ (c' x).rcvmaxsize = rcvmaxsize x) ∧
      (∀ x, (c' x).sent = (c x).sent) ∧ ∀ x, Faulted (c' x) (c' !x))
    (m := fun r => r.elim 0 potential) (c := fun _ => 0)
    (fun s act t hI hp hstep => by
      obtain ⟨c', rfl, hc', hconf', hsent, hfault⟩ := hI
      obtain ⟨c'', rfl, hm⟩ := step_moves hc' hstep
      have hp' := hp c' rfl
      refine ⟨⟨c'', rfl, hm.linked hc', fun x => ?_, fun x => (hm.sent_eq hp' x).trans (hsent x),
        fun x => hm.faulted hc' (hfault x) ?_⟩, hm.potential_lt hc' hp'⟩
      · rw [(hm.config x).1, (hm.config x).2]
        exact hconf' x
      · rintro f rfl
        exact hp')
    hb hp ⟨c, rfl, hc, hconf, fun _ => rfl, fun x => faulted_exec h (hf !x)⟩
  refine ⟨c', rfl, (Nat.le_add_right _ _).trans (by simpa using hle), fun hstuck x => ?_⟩
  have hsize' : ∀ x, ∀ p ∈ (c' x).sent, 0 ≤ rcvmaxsize !x → p.bytes.length ≤ rcvmaxsize !x := by
    intro x
    rw [hsent x]
    exact hsize x
  rw [hstuck.all_taken hc' (fun y => ?_) x, hsent x]
  have := state_ne_done (x := !y) (hfault !y) hconf' hpeer hsize'
  rwa [Bool.not_not] at this

/-- A message whose header has been read is handed out. -/
theorem drained_oneMessage : ∃ c c' : Conn,
    exec step (some (init (fun _ => xpair) fun _ => -1)) oneMessage = some (some c) ∧
      exec step (some c) [.act true (.process 0), .act true (.process 0), .act true (.recv 0)] =
        some (some c') ∧ 3 ≤ c.potential ∧
      (Stuck c' → ∀ x, (c' !x).taken = (c x).sent.map Payload.bytes) := by
  have hrun := eq_some_get
    (o := exec step (some (init (fun _ => xpair) fun _ => -1)) oneMessage) (by decide)
  have hrest := eq_some_get (o := exec step (some (Option.get
    ((exec step (some (init (fun _ => xpair) fun _ => -1)) oneMessage).bind id) (by decide)))
    [.act true (.process 0), .act true (.process 0), .act true (.recv 0)]) (by decide)
  have hf : ∀ x f, ConnAct.fail x f ∉ oneMessage := by simp [oneMessage, exchange]
  obtain ⟨c', hc', hle, hd⟩ := drained hrun hf (by decide) (by simp) hrest (by decide)
  exact ⟨_, _, hrun, hrest, hle, Option.some.inj hc' ▸ hd⟩

end Conn

end Petunia.Ipc
