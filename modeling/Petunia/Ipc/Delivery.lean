import Petunia.Ipc.Invariant

set_option autoImplicit false

/-!
# Delivery over a connection

Each direction of a connection is a stream: the protocol header of the sending end, then its
messages. The receiving end has decoded the messages whose bytes it has read.

* `End.inBytes`, `End.outBytes`: the bytes on either side, however far they have come
  (`Effect.inBytes_eq`, `Effect.outBytes_eq`);
* `Parsed`, `Delivers`: the messages in these bytes;
* **`Delivers.receive`**, **`Delivers.send`**, `Delivers.transfer`, `Delivers.close_sender`,
  `Delivers.close_receiver`: what every step keeps;
* `Delivers.head_eq`: the one assertion that depends on the peer;
* `Delivers.all_available`: with nothing on its way everything sent is there.
-/

namespace Petunia.Ipc

open CTypes Lts Framing

namespace End

/-- The bytes that an end has read or that have arrived. -/
def inBytes (e : End) : Bytes := e.read ++ e.buf ++ e.u.ahead ++ e.incoming

/-- The bytes that an end has still to get across. -/
def outBytes (e : End) : Bytes := e.outgoing ++ e.hdr.flatten

theorem inBytes_eq (e : End) : e.inBytes = e.read ++ (e.buf ++ (e.u.ahead ++ e.incoming)) := by
  simp only [inBytes, List.append_assoc]

variable {e e' : End} {a : Act}

theorem Effect.socktype_eq (h : Effect e a e') : e'.socktype = e.socktype := by
  cases h <;> rfl

theorem Effect.rcvmaxsize_eq (h : Effect e a e') : e'.rcvmaxsize = e.rcvmaxsize := by
  cases h <;> rfl

/-- **A step moves bytes into buffers** and changes none. -/
theorem Effect.inBytes_eq (h : Effect e a e') : e'.inBytes = e.inBytes := by
  rw [End.inBytes_eq, End.inBytes_eq]
  cases h with
  | headerSent n hs hev hf | started n hs hev hf | bodyAwaited n hs hev hc hl hsize hf
  | recv n hs hev hi hc hf =>
    have hb := hf.bytes
    rw [List.append_assoc] at hb
    simp only [hb, List.append_assoc]
  | fdIn n hs hev hwant hf =>
    have hb := hf.bytes
    simp only [List.append_assoc] at hb
    simp only [hb]
  | empty => simp only [List.append_assoc, List.nil_append]
  | _ => rfl

/-- **A step adds the bytes of the messages it accepts.** -/
theorem Effect.outBytes_eq (h : Effect e a e') : ∃ ps : List Payload, e'.sent = e.sent ++ ps ∧
    e'.outBytes = e.outBytes ++ ps.flatMap Payload.encode := by
  cases h with
  | send size_lt n hs hev ho hh hb hne =>
    refine ⟨_, rfl, ?_⟩
    simp only [outBytes, hb, hh, List.flatten_nil, List.append_nil, List.flatMap_cons,
      List.flatMap_nil]
  | fdOut n hs hev hh hw =>
    refine ⟨[], (List.append_nil _).symm, ?_⟩
    simp only [outBytes, hw.bytes, List.flatMap_nil, List.append_nil]
  | _ => exact ⟨[], (List.append_nil _).symm, (List.append_nil _).symm⟩

end End

/-! ## One direction -/

/-- What the receiving end has decoded of a header and some messages. -/
inductive Parsed (hdr : Bytes) (sent : List Payload) (e : End) : Prop
  | header (hs : e.state = .sending ∧ e.buf = [] ∨ e.state = .receiving) (hr : e.read = [])
    (ht : e.taken = [])
  | exchanged (hs : e.state = .stopping) (hr : e.read = []) (ht : e.taken = []) (hb : e.buf = hdr)
  | size {ps rest : List Payload} (hs : e.state = .active) (hc : e.sipcIn = .hdr)
    (hsent : sent = ps ++ rest) (ht : e.taken = ps.map Payload.bytes)
    (hr : e.read = hdr ++ ps.flatMap Payload.encode)
  | body {ps rest : List Payload} {p : Payload} (hs : e.state = .active)
    (hc : e.sipcIn = .body ∨ e.sipcIn = .hasmsg) (hsent : sent = ps ++ p :: rest)
    (ht : e.taken = ps.map Payload.bytes)
    (hr : e.read = hdr ++ ps.flatMap Payload.encode ++ outhdr p.bytes.length)
    (hl : e.buf.length + e.want = p.bytes.length)
  | done {ps rest : List Payload} (hs : e.state = .done) (hsent : sent = ps ++ rest)
    (ht : e.taken = ps.map Payload.bytes)

/-- One direction of a connection, from `x` to `y`. -/
structure Delivers (x y : End) : Prop where
  stream : y.inBytes ++ x.outBytes =
    protohdr x.socktype.protocol ++ x.sent.flatMap Payload.encode
  parsed : Parsed (protohdr x.socktype.protocol) x.sent y

/-- The messages handed out are the first ones that were sent. -/
theorem Parsed.taken {hdr : Bytes} {sent : List Payload} {e : End} (h : Parsed hdr sent e) :
    ∃ ps rest, sent = ps ++ rest ∧ e.taken = ps.map Payload.bytes := by
  cases h with
  | header hs hr ht | exchanged hs hr ht => exact ⟨[], sent, rfl, ht⟩
  | size hs hc hsent ht | done hs hsent ht => exact ⟨_, _, hsent, ht⟩
  | body hs hc hsent ht => exact ⟨_, _, hsent, ht⟩

/-- More messages are sent. -/
theorem Parsed.append {hdr : Bytes} {sent : List Payload} {e : End} (h : Parsed hdr sent e)
    (more : List Payload) : Parsed hdr (sent ++ more) e := by
  cases h with
  | header hs hr ht => exact .header hs hr ht
  | exchanged hs hr ht hb => exact .exchanged hs hr ht hb
  | size hs hc hsent ht hr =>
    exact .size hs hc (by rw [hsent, List.append_assoc]) ht hr
  | body hs hc hsent ht hr hl =>
    exact .body hs hc (by rw [hsent, List.append_assoc, List.cons_append]) ht hr hl
  | done hs hsent ht => exact .done hs (by rw [hsent, List.append_assoc]) ht

/-- The state of the receiving end that matters. -/
theorem Parsed.congr {hdr : Bytes} {sent : List Payload} {e e' : End} (h : Parsed hdr sent e)
    (hf : (e'.state, e'.sipcIn, e'.buf, e'.want, e'.read, e'.taken) =
      (e.state, e.sipcIn, e.buf, e.want, e.read, e.taken)) : Parsed hdr sent e' := by
  simp only [Prod.mk.injEq] at hf
  obtain ⟨h1, h2, h3, h4, h5, h6⟩ := hf
  cases h with
  | header hs hr ht => exact .header (by rwa [h1, h3]) (h5.trans hr) (h6.trans ht)
  | exchanged hs hr ht hb =>
    exact .exchanged (h1.trans hs) (h5.trans hr) (h6.trans ht) (h3.trans hb)
  | size hs hc hsent ht hr =>
    exact .size (h1.trans hs) (h2.trans hc) hsent (h6.trans ht) (h5.trans hr)
  | body hs hc hsent ht hr hl =>
    exact .body (h1.trans hs) (by rwa [h2]) hsent (h6.trans ht) (h5.trans hr) (by rwa [h3, h4])
  | done hs hsent ht => exact .done (h1.trans hs) hsent (h6.trans ht)

@[simp] theorem length_protohdr (protocol : UInt16) : (protohdr protocol).length = 8 := rfl

variable {x y y' : End} {a : End.Act}

/-- The buffer for the protocol header, once filled. -/
theorem Delivers.protohdr_read (hd : Delivers x y) (hs : y.state = .receiving)
    (hl : y.buf.length = 8) :
    y.read = [] ∧ y.taken = [] ∧ y.buf = protohdr x.socktype.protocol := by
  cases hd.parsed with
  | header hs' hr ht =>
    have hst := hd.stream
    rw [End.inBytes_eq, hr, List.nil_append, List.append_assoc] at hst
    exact ⟨hr, ht, (List.append_inj hst (hl.trans (length_protohdr _).symm)).1⟩
  | exchanged hs' | size hs' | body hs' | done hs' => rw [hs] at hs'; cases hs'

/-- The buffer for the size of a message, once filled. -/
theorem Delivers.header_read (hd : Delivers x y) (hs : y.state = .active) (hc : y.sipcIn = .hdr)
    (hl : y.buf.length = 9) : ∃ ps p rest, x.sent = ps ++ p :: rest ∧
      y.taken = ps.map Payload.bytes ∧ y.buf = outhdr p.bytes.length ∧
      y.read = protohdr x.socktype.protocol ++ ps.flatMap Payload.encode := by
  cases hd.parsed with
  | size hs' hc' hsent ht hr =>
    have hst := hd.stream
    rw [End.inBytes_eq, hr, hsent, List.flatMap_append] at hst
    simp only [List.append_assoc, List.append_cancel_left_eq] at hst
    obtain ⟨p, cs, rfl, hb, -⟩ := IsPrefixCode.header (by decide : 0 < 9)
      (fun p : Payload => length_outhdr p.bytes.length) hl hst
    exact ⟨_, p, cs, hsent, ht, hb, hr⟩
  | header hs' => rw [hs] at hs'; rcases hs' with ⟨hs', -⟩ | hs' <;> cases hs'
  | exchanged hs' | done hs' => rw [hs] at hs'; cases hs'
  | body hs' hc' => rw [hc] at hc'; rcases hc' with hc' | hc' <;> cases hc'

/-- The message that a filled buffer holds. -/
theorem Delivers.body_read (hd : Delivers x y) (hs : y.state = .active)
    (hc : y.sipcIn = .body ∨ y.sipcIn = .hasmsg) (hw : y.want = 0) :
    ∃ ps p rest, x.sent = ps ++ p :: rest ∧ y.taken = ps.map Payload.bytes ∧ y.buf = p.bytes ∧
      y.read = protohdr x.socktype.protocol ++ ps.flatMap Payload.encode ++
        outhdr p.bytes.length := by
  cases hd.parsed with
  | @body ps rest p hs' hc' hsent ht hr hl =>
    have hst := hd.stream
    rw [End.inBytes_eq, hr, hsent, List.flatMap_append, List.flatMap_cons, Payload.encode] at hst
    simp only [List.append_assoc, List.append_cancel_left_eq] at hst
    refine ⟨ps, p, rest, hsent, ht, (List.append_inj hst ?_).1, hr⟩
    rw [← hl, hw, Nat.add_zero]
  | header hs' => rw [hs] at hs'; rcases hs' with ⟨hs', -⟩ | hs' <;> cases hs'
  | exchanged hs' | done hs' => rw [hs] at hs'; cases hs'
  | size hs' hc' => rw [hc'] at hc; rcases hc with hc | hc <;> cases hc

/-- The bytes taken for the header of a message begin with the type of one. -/
theorem Delivers.head_eq (hd : Delivers x y) (hv : y.Valid) (hs : y.state = .active)
    (hc : y.sipcIn = .hdr) (hev : .received ∈ y.events) : y.buf.head? = some msgNormal := by
  obtain ⟨-, -, ⟨hs', -⟩ | ⟨-, -, ⟨-, hl⟩ | hc'⟩⟩ := hv.of_received hev
  · rw [hs] at hs'
    cases hs'
  · obtain ⟨ps, p, rest, -, -, hb, -⟩ := hd.header_read hs hc hl
    rw [hb]
    rfl
  · rw [hc] at hc'
    cases hc'

/-- More of a buffer has been filled. -/
theorem Parsed.fill {hdr : Bytes} {sent : List Payload} {e : End} (h : Parsed hdr sent e)
    (hv : e.Valid) (hw : e.want ≠ 0) {u : In} {incoming buf : Bytes} {want : ℕ}
    {events : List Event} (hl : buf.length + want = e.buf.length + e.want) :
    Parsed hdr sent { e with u, incoming, buf, want, events } := by
  cases h with
  | header hs hr ht =>
    rcases hs with ⟨hs, -⟩ | hs
    · cases hv.inp with
      | waiting hs' hi hw' => exact absurd hw' hw
      | header hs' | exchanged hs' | size hs' | body hs' | hasmsg hs' | done hs' =>
        rw [hs] at hs'
        cases hs'
    · exact .header (.inr hs) hr ht
  | exchanged hs hr ht hb =>
    cases hv.inp with
    | exchanged hs' hi hw' => exact absurd hw' hw
    | header hs' | waiting hs' | size hs' | body hs' | hasmsg hs' | done hs' =>
      rw [hs] at hs'
      cases hs'
  | size hs hc hsent ht hr => exact .size hs hc hsent ht hr
  | body hs hc hsent ht hr hl' => exact .body hs hc hsent ht hr (hl.trans hl')
  | done hs hsent ht => exact .done hs hsent ht

/-- **A step of the receiving end** decodes what it reads. -/
theorem Delivers.receive (hd : Delivers x y) (hv : y.Valid) (h : y.Effect a y') :
    Delivers x y' := by
  refine ⟨by rw [h.inBytes_eq, hd.stream], ?_⟩
  cases h with
  | headerSent n hs hev hf =>
    cases hd.parsed with
    | header hs' hr ht =>
      obtain ⟨-, hb⟩ := hs'.resolve_right fun h => by rw [hs] at h; cases h
      exact .header (.inr rfl) (by simp [hr, hb]) ht
    | exchanged hs' | size hs' | body hs' | done hs' => rw [hs] at hs'; cases hs'
  | headerRead n hs hev hl hw =>
    obtain ⟨hr, ht, hb⟩ := hd.protohdr_read hs hl
    by_cases hacc : accepts y.socktype y.buf
    · rw [if_pos hacc]
      exact .exchanged rfl hr ht hb
    · rw [if_neg hacc]
      exact @Parsed.done _ _ _ [] _ rfl rfl ht
  | started n hs hev hf =>
    cases hd.parsed with
    | exchanged hs' hr ht hb => exact @Parsed.size _ _ _ [] _ rfl rfl rfl ht (by simp [hr, hb])
    | header hs' => rw [hs] at hs'; rcases hs' with ⟨hs', -⟩ | hs' <;> cases hs'
    | size hs' | body hs' | done hs' => rw [hs] at hs'; cases hs'
  | tooLarge n hs hev hc hl hsize =>
    obtain ⟨ps, rest, hsent, ht⟩ := hd.parsed.taken
    exact .done rfl hsent ht
  | empty n hs hev hc hl hsize =>
    obtain ⟨ps, p, rest, hsent, ht, hb, hr⟩ := hd.header_read hs hc hl
    rw [hb, toNat_getll_outhdr] at hsize
    refine .body hs (.inr rfl) hsent ht (by simp only [hr, hb]) ?_
    rw [hsize, (hv.of_received (by simp [hev])).1]
    rfl
  | bodyAwaited n hs hev hc hl hsize hf =>
    obtain ⟨ps, p, rest, hsent, ht, hb, hr⟩ := hd.header_read hs hc hl
    have hlen := hf.length
    rw [hb, toNat_getll_outhdr] at hlen
    exact .body hs (.inl rfl) hsent ht (by simp only [hr, hb]) hlen
  | bodyRead n hs hev hc hw =>
    cases hd.parsed with
    | body hs' hc' hsent ht hr hl => exact .body hs (.inr rfl) hsent ht hr hl
    | header hs' => rw [hs] at hs'; rcases hs' with ⟨hs', -⟩ | hs' <;> cases hs'
    | exchanged hs' | done hs' => rw [hs] at hs'; cases hs'
    | size hs' hc' => rw [hc] at hc'; cases hc'
  | fdIn n hs hev hwant hf => exact hd.parsed.fill hv hwant hf.length
  | recv n hs hev hi hc hf =>
    have hw := hv.inp.want_of_hasmsg hs hc
    obtain ⟨ps, p, rest, hsent, ht, hb, hr⟩ := hd.body_read hs (.inr hc) hw
    refine @Parsed.size _ _ _ (ps ++ [p]) rest hs rfl ?_ ?_ ?_
    · rw [hsent, List.append_assoc, List.singleton_append]
    · simp only [ht, hb, List.map_append, List.map_cons, List.map_nil]
    · simp only [hr, hb, List.flatMap_append, List.flatMap_cons, List.flatMap_nil,
        List.append_nil, Payload.encode, List.append_assoc]
  | written | outReady | inReady | fdOut | send => exact hd.parsed.congr rfl

/-- **A step of the sending end** adds the messages it accepts to the stream. -/
theorem Delivers.send {x' : End} (hd : Delivers x y) (h : x.Effect a x') : Delivers x' y := by
  obtain ⟨ps, hsent, hb⟩ := h.outBytes_eq
  refine ⟨?_, ?_⟩
  · rw [hb, h.socktype_eq, hsent, ← List.append_assoc, hd.stream, List.flatMap_append,
      List.append_assoc]
  · rw [hsent, h.socktype_eq]
    exact hd.parsed.append ps

/-- **Bytes cross** unchanged and in order. -/
theorem Delivers.transfer (hd : Delivers x y) (n : ℕ) :
    Delivers { x with outgoing := x.outgoing.drop n }
      { y with incoming := y.incoming ++ x.outgoing.take n } := by
  refine ⟨?_, hd.parsed.congr rfl⟩
  have hst := hd.stream
  rw [End.inBytes_eq, End.outBytes] at hst
  rw [End.inBytes_eq, End.outBytes]
  dsimp only
  rw [← hst]
  simp only [List.append_assoc]
  rw [← List.append_assoc (x.outgoing.take n), List.take_append_drop]

/-- What a session has accepted stays accepted when it ends, though it may never cross. -/
theorem Delivers.close_sender (hd : Delivers x y) : Delivers x.close y := ⟨hd.stream, hd.parsed⟩

/-- What a session has handed out stays handed out. -/
theorem Delivers.close_receiver (hd : Delivers x y) : Delivers x y.close := by
  obtain ⟨ps, rest, hsent, ht⟩ := hd.parsed.taken
  exact ⟨hd.stream, .done rfl hsent ht⟩

/-- The message that the socket can hand out. -/
def End.available (e : End) : List Bytes := if e.inpipe then [e.buf] else []

theorem End.available_of_inpipe {e : End} (h : e.inpipe = false) : e.available = [] := by
  rw [End.available, h]
  rfl

/-- Nothing is available before or after a step. -/
theorem End.available_eq_of_inpipe {e e' : End} (h : e.inpipe = false) (h' : e'.inpipe = false) :
    e'.available = e.available := by
  rw [available_of_inpipe h, available_of_inpipe h']

/-- **A message becomes available** in one kind of step, and only `nn_recv` takes it away. -/
theorem End.Effect.available_eq {e e' : End} (hv : e.Valid) (h : e.Effect a e')
    (ha : ∀ n, a ≠ .recv n) : e'.taken = e.taken ∧
      (e'.available = e.available ∨ e.available = [] ∧ e'.available = [e.buf] ∧
        e.state = .active ∧ e.sipcIn = .hasmsg ∧ e.want = 0) := by
  cases h with
  | headerSent n hs | started n hs =>
    have hi := hv.inp.of_not_active (by simp [hs])
    exact ⟨rfl, .inl (available_eq_of_inpipe hi hi)⟩
  | tooLarge n hs hev =>
    have hi := (hv.of_received (by simp [hev])).2.1
    exact ⟨rfl, .inl (available_eq_of_inpipe hi rfl)⟩
  | empty n hs hev | bodyAwaited n hs hev =>
    have hi := (hv.of_received (by simp [hev])).2.1
    exact ⟨rfl, .inl (available_eq_of_inpipe hi hi)⟩
  | fdIn n hs hev hwant =>
    have hi := (hv.inp.of_want hwant).1
    exact ⟨rfl, .inl (available_eq_of_inpipe hi hi)⟩
  | inReady n hs hev hi hc =>
    exact ⟨rfl, .inr ⟨available_of_inpipe hi, rfl, hs, hc, hv.inp.want_of_hasmsg hs hc⟩⟩
  | recv n => exact absurd rfl (ha n)
  | headerRead | written | outReady | bodyRead | fdOut | send => exact ⟨rfl, .inl rfl⟩

/-- Only `nn_send` adds a message. -/
theorem End.Effect.sent_eq {e e' : End} (h : e.Effect a e')
    (ha : ∀ sphdr body hlt n, a ≠ .send sphdr body hlt n) : e'.sent = e.sent := by
  cases h with
  | send size_lt n => exact absurd rfl (ha _ _ size_lt n)
  | _ => rfl

/-- `nn_send` adds its message and nothing else that is seen. -/
theorem End.Effect.of_send {e e' : End} {sphdr body : Bytes}
    {hlt : (sphdr ++ body).length < 2 ^ 64} {n : ℕ} (h : e.Effect (.send sphdr body hlt n) e') :
    e'.sent = e.sent ++ [⟨sphdr ++ body, hlt⟩] ∧ e'.taken = e.taken ∧
      e'.available = e.available := by
  cases h
  exact ⟨rfl, rfl, rfl⟩

/-- `nn_recv` hands out the available message. -/
theorem End.Effect.of_recv {e e' : End} {n : ℕ} (h : e.Effect (.recv n) e') :
    e'.sent = e.sent ∧ e.available = [e.buf] ∧ e'.taken = e.taken ++ [e.buf] ∧
      e'.available = [] := by
  cases h with
  | recv n hs hev hi => exact ⟨rfl, by rw [available, hi]; rfl, rfl, rfl⟩

/-- **With nothing on its way everything sent has been handed out or is available.** -/
theorem Delivers.all_available (hd : Delivers x y) (hv : y.Valid) (hs : y.state = .active)
    (hev : y.events = []) (hahead : y.u.ahead = []) (hin : y.incoming = [])
    (hout : x.outBytes = []) : x.sent.map Payload.bytes = y.taken ++ y.available := by
  have hst := hd.stream
  rw [End.inBytes_eq, hahead, hin, hout] at hst
  have hnew : ∀ ps : List Payload, (ps.flatMap Payload.encode).length < 9 → ps = [] := by
    intro ps hlt
    cases ps with
    | nil => rfl
    | cons p ps =>
      rw [List.flatMap_cons, Payload.encode, List.length_append, List.length_append,
        length_outhdr] at hlt
      omega
  cases hv.inp with
  | size hs' hi hp hc hl hiff =>
    have hw : y.want ≠ 0 := fun h => by simpa [hev] using hiff.mpr h
    cases hd.parsed with
    | @size ps rest hs' hc' hsent ht hr =>
      rw [hr, hsent, List.flatMap_append] at hst
      simp only [List.append_assoc, List.append_nil, List.append_cancel_left_eq] at hst
      obtain rfl := hnew rest (by rw [← hst]; omega)
      simp [hsent, ht, End.available, hi]
    | header hs' => rw [hs] at hs'; rcases hs' with ⟨hs', -⟩ | hs' <;> cases hs'
    | exchanged hs' | done hs' => rw [hs] at hs'; cases hs'
    | body hs' hc' => rw [hc] at hc'; rcases hc' with hc' | hc' <;> cases hc'
  | body hs' hi hp hc hiff =>
    have hw : y.want ≠ 0 := fun h => by simpa [hev] using hiff.mpr h
    cases hd.parsed with
    | @body ps rest p hs' hc' hsent ht hr hl =>
      rw [hr, hsent, List.flatMap_append, List.flatMap_cons, Payload.encode] at hst
      simp only [List.append_assoc, List.append_nil, List.append_cancel_left_eq] at hst
      have := congrArg List.length hst
      rw [List.length_append] at this
      omega
    | header hs' => rw [hs] at hs'; rcases hs' with ⟨hs', -⟩ | hs' <;> cases hs'
    | exchanged hs' | done hs' => rw [hs] at hs'; cases hs'
    | size hs' hc' => rw [hc] at hc'; cases hc'
  | hasmsg hs' hp hc hw hno hiff =>
    have hi : y.inpipe = true := by
      cases hi : y.inpipe with
      | true => rfl
      | false => simpa [hev] using hiff.mpr hi
    obtain ⟨ps, p, rest, hsent, ht, hb, hr⟩ := hd.body_read hs (.inr hc) hw
    rw [hr, hb, hsent, List.flatMap_append, List.flatMap_cons, Payload.encode] at hst
    simp only [List.append_assoc, List.append_nil, List.append_cancel_left_eq] at hst
    have hrest : rest.flatMap Payload.encode = [] := by simpa using hst.symm
    obtain rfl := hnew rest (by rw [hrest]; decide)
    simp [hsent, ht, hb, End.available, hi]
  | waiting hs' | header hs' | exchanged hs' | done hs' => rw [hs] at hs'; cases hs'

end Petunia.Ipc
