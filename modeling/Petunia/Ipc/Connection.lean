import Petunia.Ipc.Handshake

set_option autoImplicit false

/-!
# Runs of a connection

* `Linked`: what holds of one direction, from a sending to a receiving end;
* `Conn.Moves`, `Conn.step_moves`: what one step does to the two ends, without a failed assertion;
* `Conn.linked`: both directions stay linked in every run;
* `Conn.Quiet`: nothing is on its way in a direction;
* **`delivered`**: what is handed out is what was sent;
* **`session_checked`**: which sessions start, and what ends one.
-/

namespace Petunia.Ipc

open CTypes Lts

/-- The bytes in the kernel are no concern of the layers above. -/
theorem End.Valid.kernel {e : End} (h : e.Valid) (outgoing incoming : Bytes) :
    { e with outgoing, incoming }.Valid := by
  obtain ⟨ho, hi, hq, hne⟩ := h
  by_cases hd : e.state = .done
  · cases ho with
    | done hs ho hev =>
      exact ⟨.done hd ho hev, .done hd (hi.of_not_active (by simp [hd])) hev, hq, hne⟩
    | header hs' | ready hs' | writing hs' => rw [hd] at hs'; cases hs'
    | exchange hs' => rw [hd] at hs'; rcases hs' with hs' | hs' <;> cases hs'
  · exact ⟨ho.frame hd rfl rfl .rfl .rfl, hi.frame hd rfl rfl .rfl .rfl, hq, hne⟩

/-- What holds of a direction of a connection at any time. -/
structure Linked (x y : End) : Prop where
  sender : x.Valid
  receiver : y.Valid
  delivers : Delivers x y
  judged : Judged x y

namespace Linked

variable {x x' y y' : End} {a : End.Act}

theorem send (hl : Linked x y) (h : x.Effect a x') : Linked x' y :=
  ⟨h.valid hl.sender, hl.receiver, hl.delivers.send h, hl.judged.send h⟩

theorem receive (hl : Linked x y) (h : y.Effect a y') : Linked x y' :=
  ⟨hl.sender, h.valid hl.receiver, hl.delivers.receive hl.receiver h,
    hl.judged.receive hl.delivers hl.receiver h⟩

/-- Bytes cross in this direction. -/
theorem transfer (hl : Linked x y) (n : ℕ) :
    Linked { x with outgoing := x.outgoing.drop n }
      { y with incoming := y.incoming ++ x.outgoing.take n } :=
  ⟨hl.sender.kernel _ _, hl.receiver.kernel _ _, hl.delivers.transfer n,
    ⟨hl.judged.accepted, hl.judged.taken, hl.judged.current⟩⟩

/-- Bytes cross in the other direction. -/
theorem transfer' (hl : Linked x y) (n : ℕ) :
    Linked { x with incoming := x.incoming ++ y.outgoing.take n }
      { y with outgoing := y.outgoing.drop n } :=
  ⟨hl.sender.kernel _ _, hl.receiver.kernel _ _,
    ⟨hl.delivers.stream, hl.delivers.parsed.congr rfl⟩,
    ⟨hl.judged.accepted, hl.judged.taken, hl.judged.current⟩⟩

/-- The session of the sending end is over. -/
theorem close_sender (hl : Linked x y) (hev : x.events = []) : Linked x.close y :=
  ⟨hl.sender.close hev, hl.receiver, hl.delivers.close_sender,
    ⟨hl.judged.accepted, hl.judged.taken, hl.judged.current⟩⟩

/-- The session of the receiving end is over. -/
theorem close_receiver (hl : Linked x y) (hev : y.events = []) : Linked x y.close :=
  ⟨hl.sender, hl.receiver.close hev, hl.delivers.close_receiver, hl.judged.close⟩

end Linked

namespace Conn

variable {c c' : Conn} {act : ConnAct}

/-- What one step does: an effect at one end, a transfer from it, or the end of its session. -/
inductive Moves (c c' : Conn) : ConnAct → Prop
  | act (x : Bool) {a : End.Act} (hx : (c x).Effect a (c' x)) (hy : c' (!x) = c !x) :
    Moves c c' (.act x a)
  | transfer (x : Bool) (n : ℕ) (hx : c' x = { c x with outgoing := (c x).outgoing.drop n })
    (hy : c' (!x) = { c !x with incoming := (c !x).incoming ++ (c x).outgoing.take n }) :
    Moves c c' (.transfer x n)
  | ignored (x : Bool) (f : Ending) (hc : c' = c) : Moves c c' (.fail x f)
  | close (x : Bool) (f : Ending) (hev : (c x).events = []) (hx : c' x = (c x).close)
    (hy : c' (!x) = c !x) : Moves c c' (.fail x f)

theorem not_linked (hc : ∀ x, Linked (c x) (c !x)) (x : Bool) : Linked (c !x) (c x) := by
  have := hc !x
  rwa [Bool.not_not] at this

/-- **A step fails no assertion.** -/
theorem step_moves {r : Option Conn} (hc : ∀ x, Linked (c x) (c !x))
    (h : step (some c) act = some r) : ∃ c', r = some c' ∧ Moves c c' act := by
  cases act with
  | act x a =>
    obtain ⟨o, ho, rfl⟩ := Option.map_eq_some_iff.mp h
    have hin := not_linked hc x
    obtain ⟨e, rfl, he⟩ := End.act_effect hin.receiver (hin.delivers.head_eq hin.receiver) ho
    refine ⟨Function.update c x e, rfl, .act x ?_ ?_⟩
    · rwa [Function.update_self]
    · exact Function.update_of_ne (Bool.not_ne_self x) _ _
  | transfer x n =>
    obtain rfl := (Option.some.inj h).symm
    exact ⟨_, rfl, .transfer x n (if_pos rfl) (if_neg (Bool.not_ne_self x))⟩
  | fail x f =>
    simp only [step] at h
    split_ifs at h with hev
    obtain ⟨e, he, rfl⟩ := Option.map_eq_some_iff.mp h
    refine ⟨_, rfl, ?_⟩
    rcases End.fail_eq he with rfl | rfl
    · exact .ignored x f (Function.update_eq_self x c)
    · exact .close x f hev (Function.update_self ..) (Function.update_of_ne (Bool.not_ne_self x) ..)

/-- **A step keeps both directions linked.** -/
theorem Moves.linked (h : Moves c c' act) (hc : ∀ x, Linked (c x) (c !x)) (y : Bool) :
    Linked (c' y) (c' !y) := by
  cases h with
  | act x hx hy =>
    by_cases hyx : y = x
    · subst hyx
      rw [hy]
      exact (hc y).send hx
    · obtain rfl := Bool.eq_not.mpr (Ne.symm hyx)
      rw [Bool.not_not] at hy
      rw [hy]
      exact (hc y).receive hx
  | transfer x n hx hy =>
    by_cases hyx : y = x
    · subst hyx
      rw [hx, hy]
      exact (hc y).transfer n
    · obtain rfl := Bool.eq_not.mpr (Ne.symm hyx)
      rw [Bool.not_not] at hy
      rw [hx, hy]
      exact (hc y).transfer' n
  | ignored x f hc' => exact hc' ▸ hc y
  | close x f hev hx hy =>
    by_cases hyx : y = x
    · subst hyx
      rw [hx, hy]
      exact (hc y).close_sender hev
    · obtain rfl := Bool.eq_not.mpr (Ne.symm hyx)
      rw [Bool.not_not] at hy
      rw [hx, hy]
      exact (hc y).close_receiver hev

/-- **A session that is not ended from outside** ends for what it has read. -/
theorem Moves.faulted (h : Moves c c' act) (hc : ∀ x, Linked (c x) (c !x)) {y : Bool}
    (hf : Faulted (c y) (c !y)) (hact : ∀ f, act ≠ .fail (!y) f) : Faulted (c' y) (c' !y) := by
  cases h with
  | act x hx hy =>
    by_cases hyx : y = x
    · subst hyx
      rw [hy]
      exact hf.send hx
    · obtain rfl := Bool.eq_not.mpr (Ne.symm hyx)
      rw [Bool.not_not] at hy
      rw [hy]
      exact (hc y).delivers.faulted hx
  | transfer x n hx hy =>
    by_cases hyx : y = x
    · subst hyx
      rw [hx, hy]
      exact hf
    · obtain rfl := Bool.eq_not.mpr (Ne.symm hyx)
      rw [Bool.not_not] at hy
      rw [hx, hy]
      exact hf
  | ignored x f hc' => exact hc' ▸ hf
  | close x f hev hx hy =>
    by_cases hyx : y = x
    · subst hyx
      rw [hx, hy]
      exact hf
    · obtain rfl := Bool.eq_not.mpr (Ne.symm hyx)
      exact absurd rfl (hact f)

theorem linked_init (socktype : Bool → Socktype) (rcvmaxsize : Bool → ℤ) (x : Bool) :
    Linked (init socktype rcvmaxsize x) (init socktype rcvmaxsize !x) where
  sender := End.valid_init (socktype x) (rcvmaxsize x)
  receiver := End.valid_init (socktype !x) (rcvmaxsize !x)
  delivers := by
    refine ⟨?_, .header (.inl ⟨rfl, rfl⟩) rfl rfl⟩
    simp [init, End.init, End.inBytes, End.outBytes, In.ahead]
  judged := ⟨by simp [init, End.init], by simp [init, End.init], by simp [init, End.init]⟩

variable {socktype : Bool → Socktype} {rcvmaxsize : Bool → ℤ} {as : List ConnAct} {r : Option Conn}

/-- The sockets keep their types and limits. -/
theorem Moves.config (h : Moves c c' act) (y : Bool) :
    (c' y).socktype = (c y).socktype ∧ (c' y).rcvmaxsize = (c y).rcvmaxsize := by
  cases h with
  | act x hx hy =>
    by_cases hyx : y = x
    · subst hyx
      exact ⟨hx.socktype_eq, hx.rcvmaxsize_eq⟩
    · obtain rfl := Bool.eq_not.mpr (Ne.symm hyx)
      rw [Bool.not_not] at hy
      rw [hy]
      exact ⟨rfl, rfl⟩
  | ignored x f hc => exact hc ▸ ⟨rfl, rfl⟩
  | transfer x n hx hy | close x f hev hx hy =>
    by_cases hyx : y = x
    · subst hyx
      rw [hx]
      exact ⟨rfl, rfl⟩
    · obtain rfl := Bool.eq_not.mpr (Ne.symm hyx)
      rw [Bool.not_not] at hy
      rw [hy]
      exact ⟨rfl, rfl⟩

/-- **No run fails an assertion**, and both directions are linked in every state it reaches. -/
theorem linked (h : exec step (some (init socktype rcvmaxsize)) as = some r) :
    ∃ c, r = some c ∧ (∀ x, Linked (c x) (c !x)) ∧
      ∀ x, (c x).socktype = socktype x ∧ (c x).rcvmaxsize = rcvmaxsize x :=
  exec_invariant (I := fun r => ∃ c, r = some c ∧ (∀ x, Linked (c x) (c !x)) ∧
      ∀ x, (c x).socktype = socktype x ∧ (c x).rcvmaxsize = rcvmaxsize x)
    (fun s act t hs hstep => by
      obtain ⟨c, rfl, hc, hconf⟩ := hs
      obtain ⟨c', rfl, hm⟩ := step_moves hc hstep
      refine ⟨c', rfl, hm.linked hc, fun x => ?_⟩
      rw [(hm.config x).1, (hm.config x).2]
      exact hconf x)
    h ⟨_, rfl, linked_init socktype rcvmaxsize, fun _ => ⟨rfl, rfl⟩⟩

/-- Nothing is on its way from `x`: the other end has started, has handled its events and has read
every byte. -/
structure Quiet (c : Conn) (x : Bool) : Prop where
  state : (c !x).state = .active
  events : (c !x).events = []
  ahead : (c !x).u.ahead = []
  incoming : (c !x).incoming = []
  outgoing : (c x).outgoing = []
  hdr : (c x).hdr = []

/-- With nothing on its way everything sent is there. -/
theorem Quiet.all_available {x : Bool} (hq : c.Quiet x) (hc : ∀ x, Linked (c x) (c !x)) :
    (c x).sent.map Payload.bytes = (c !x).taken ++ (c !x).available :=
  (hc x).delivers.all_available (hc x).receiver hq.state hq.events hq.ahead hq.incoming
    (by rw [End.outBytes, hq.outgoing, hq.hdr]; rfl)

/-- **Delivery over a connection**, whatever the steps of the two ends, the events and the
partial transfers: no assertion fails, and what either end has handed out are the first messages
that the other has sent, byte for byte; with nothing on its way, all of them up to the one that
is available. -/
theorem delivered (h : exec step (some (init socktype rcvmaxsize)) as = some r) :
    ∃ c : Conn, r = some c ∧ ∀ x, (c !x).taken <+: (c x).sent.map Payload.bytes ∧
      (c.Quiet x → (c x).sent.map Payload.bytes = (c !x).taken ++ (c !x).available) := by
  obtain ⟨c, rfl, hc, -⟩ := linked h
  refine ⟨c, rfl, fun x => ⟨?_, fun hq => hq.all_available hc⟩⟩
  obtain ⟨ps, rest, hsent, ht⟩ := (hc x).delivers.parsed.taken
  exact ⟨rest.map Payload.bytes, by rw [ht, hsent, List.map_append]⟩

/-- The two protocol headers are exchanged, and both sessions start. -/
def exchange : List ConnAct :=
  [.act false (.fdOut 8), .act true (.fdOut 8), .act false (.process 0), .act true (.process 0),
    .transfer false 8, .transfer true 8, .act false (.fdIn 8), .act true (.fdIn 8),
    .act false (.process 0), .act true (.process 0), .act false (.stopped 0), .act true (.stopped 0),
    .act false (.process 0), .act true (.process 0)]

/-- A message is written in two parts and crosses; its header is read. -/
def oneMessage : List ConnAct :=
  exchange ++ [.act false (.send [] [42] (by decide) 4), .act false (.fdOut 6),
    .act false (.process 0), .act false (.process 0), .transfer false 10, .act true (.fdIn 10),
    .act true (.process 0)]

/-- It is handed out. -/
def oneTaken : List ConnAct :=
  oneMessage ++ [.act true (.process 0), .act true (.process 0), .act true (.recv 0)]

theorem delivered_oneTaken : ∃ c : Conn,
    exec step (some (init (fun _ => xpair) fun _ => -1)) oneTaken = some (some c) ∧
      (c true).taken = [[42]] ∧ (c true).taken <+: (c false).sent.map Payload.bytes := by
  have hrun := eq_some_get
    (o := exec step (some (init (fun _ => xpair) fun _ => -1)) oneTaken) (by decide)
  obtain ⟨c, hc, hd⟩ := delivered hrun
  exact ⟨_, hrun, rfl, Option.some.inj hc ▸ (hd false).1⟩

/-- In a run in which nothing ends a session from outside it ends for what it has read. -/
theorem faulted_exec {x : Bool}
    (h : exec step (some (init socktype rcvmaxsize)) as = some (some c))
    (hf : ∀ f, ConnAct.fail (!x) f ∉ as) : Faulted (c x) (c !x) := by
  have hrun : ∃ c', some c = some c' ∧ (∀ x, Linked (c' x) (c' !x)) ∧ Faulted (c' x) (c' !x) := by
    refine exec_invariant_along
      (C := fun _ act => ∀ f, act ≠ .fail (!x) f)
      (I := fun r => ∃ c', r = some c' ∧ (∀ x, Linked (c' x) (c' !x)) ∧ Faulted (c' x) (c' !x))
      (fun s act t hs hact hstep => ?_) h
      (along_of_forall fun act hact _ f hfail => hf f (hfail ▸ hact))
      ⟨_, rfl, linked_init socktype rcvmaxsize, nofun⟩
    obtain ⟨c', rfl, hc, hfault⟩ := hs
    obtain ⟨c'', rfl, hm⟩ := step_moves hc hstep
    exact ⟨c'', rfl, hm.linked hc, hm.faulted hc hfault hact⟩
  obtain ⟨_, hs, -, hfault⟩ := hrun
  exact Option.some.inj hs ▸ hfault

/-- **Which sessions start, and what ends one.** A session starts only with a peer; it hands out
messages within the limit only; and it is over only after a header that is not a peer's, at the
first message above the limit, or because it was ended from outside: by the timer of the header
exchange, an error of the socket or `nn_close`. -/
theorem session_checked (h : exec step (some (init socktype rcvmaxsize)) as = some r) :
    ∃ c : Conn, r = some c ∧ ∀ x,
      ((c !x).state = .active → sockIspeer (socktype !x) (socktype x).protocol = true) ∧
      (∀ b ∈ (c !x).taken, 0 ≤ rcvmaxsize !x → b.length ≤ rcvmaxsize !x) ∧
      ((c !x).state = .done → sockIspeer (socktype !x) (socktype x).protocol = false ∨
        (∃ ps p rest, (c x).sent = ps ++ p :: rest ∧ (c !x).taken = ps.map Payload.bytes ∧
          0 ≤ rcvmaxsize !x ∧ rcvmaxsize (!x) < p.bytes.length) ∨
        ∃ f, ConnAct.fail (!x) f ∈ as) := by
  obtain ⟨c, rfl, hc, hconf⟩ := linked h
  refine ⟨c, rfl, fun x => ?_⟩
  have hj := (hc x).judged
  have hfault := faulted_exec (x := x) h
  rw [← (hconf x).1, ← (hconf !x).1, ← (hconf !x).2]
  refine ⟨fun hs => hj.accepted (.inr hs), hj.taken, fun hs => ?_⟩
  by_cases hf : ∃ f, ConnAct.fail (!x) f ∈ as
  · exact .inr (.inr hf)
  rcases hfault (fun f hmem => hf ⟨f, hmem⟩) hs with hp | ⟨ps, p, rest, hsent, ht, hp⟩
  · exact .inl hp
  · obtain ⟨h0, hlt⟩ := Classical.not_imp.mp hp
    exact .inr (.inl ⟨ps, p, rest, hsent, ht, h0, not_le.mp hlt⟩)

/-- The message is above the limit, and the socket of its sender fails. -/
def bothDone : List ConnAct := oneMessage ++ [.fail false .error]

theorem session_checked_bothDone : ∃ c : Conn,
    exec step (some (init (fun _ => xpair) fun _ => 0)) bothDone = some (some c) ∧
      (∀ x, (c x).state = .done) ∧ ∀ x, (c !x).state = .done →
        sockIspeer xpair xpair.protocol = false ∨
        (∃ ps p rest, (c x).sent = ps ++ p :: rest ∧ (c !x).taken = ps.map Payload.bytes ∧
          (0 : ℤ) ≤ 0 ∧ (0 : ℤ) < p.bytes.length) ∨
        ∃ f, ConnAct.fail (!x) f ∈ bothDone := by
  have hrun := eq_some_get
    (o := exec step (some (init (fun _ => xpair) fun _ => 0)) bothDone) (by decide)
  obtain ⟨c, hc, hd⟩ := session_checked hrun
  exact ⟨_, hrun, by decide, fun x => Option.some.inj hc ▸ (hd x).2.2⟩

end Conn

end Petunia.Ipc
