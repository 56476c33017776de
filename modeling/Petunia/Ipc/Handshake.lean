import Petunia.Ipc.Delivery

set_option autoImplicit false

/-!
# Which sessions start, and which fail

An end drops the connection when the peer's protocol header is not that of a peer, or when a message
is larger than its `NN_RCVMAXSIZE`. Otherwise a session ends only from outside.

* `accepts_protohdr`: what the check of a header says of the socket that sent it;
* `sockIspeer_xpair`: the peers of an `NN_PAIR` socket;
* `End.Allows`, `Judged`: what an end has checked so far;
* **`Judged.receive`**, `Judged.send`: kept by every step;
* `Faulted`, **`Delivers.faulted`**: why a session is over that was not ended from outside.
-/

namespace Petunia.Ipc

open CTypes Lts

/-- **A header is accepted exactly from a peer.** -/
theorem accepts_protohdr (self : Socktype) (protocol : UInt16) :
    accepts self (protohdr protocol) = sockIspeer self protocol := by
  have h4 : (protohdr protocol).drop 4 = puts protocol ++ [0, 0] := rfl
  have hgets : gets (puts protocol ++ [0, 0]) = protocol := gets_puts protocol
  rw [accepts, h4, hgets]
  rfl

/-- The peers of an `NN_PAIR` socket are the `NN_PAIR` sockets. -/
theorem sockIspeer_xpair (protocol : UInt16) :
    sockIspeer xpair protocol = true ↔ protocol = xpair.protocol := by
  constructor
  · intro h
    simpa [xpair] using (Bool.and_eq_true_iff.mp h).2
  · rintro rfl
    decide

/-- The size is within `NN_RCVMAXSIZE`; a negative limit is none. -/
def End.Allows (e : End) (size : ℕ) : Prop := 0 ≤ e.rcvmaxsize → size ≤ e.rcvmaxsize

/-- What an end has checked of the header and the messages of its peer. -/
structure Judged (x y : End) : Prop where
  accepted : y.state = .stopping ∨ y.state = .active →
    sockIspeer y.socktype x.socktype.protocol = true
  taken : ∀ b ∈ y.taken, y.Allows b.length
  current : y.state = .active → y.sipcIn = .body ∨ y.sipcIn = .hasmsg →
    y.Allows (y.buf.length + y.want)

/-- A session that is over has met a header that is not a peer's, or a message above the limit. -/
def Faulted (x y : End) : Prop :=
  y.state = .done → sockIspeer y.socktype x.socktype.protocol = false ∨
    ∃ ps p rest, x.sent = ps ++ p :: rest ∧ y.taken = ps.map Payload.bytes ∧
      ¬ y.Allows p.bytes.length

variable {x y y' : End} {a : End.Act}

/-- A step of an end that reads nothing. -/
theorem Judged.congr (hj : Judged x y)
    (hf : (y'.socktype, y'.rcvmaxsize, y'.state, y'.sipcIn, y'.buf, y'.want, y'.taken) =
      (y.socktype, y.rcvmaxsize, y.state, y.sipcIn, y.buf, y.want, y.taken)) : Judged x y' := by
  simp only [Prod.mk.injEq] at hf
  obtain ⟨h1, h2, h3, h4, h5, h6, h7⟩ := hf
  refine ⟨?_, ?_, ?_⟩
  · rw [h1, h3]; exact hj.accepted
  · rw [h7]; simpa only [End.Allows, h2] using hj.taken
  · rw [h3, h4, h5, h6]; simpa only [End.Allows, h2] using hj.current

/-- A session that ends has judged nothing new. -/
theorem Judged.close (hj : Judged x y) : Judged x y.close := ⟨nofun, hj.taken, nofun⟩

/-- **A step of an end** checks what it reads. -/
theorem Judged.receive (hj : Judged x y) (hd : Delivers x y) (hv : y.Valid) (h : y.Effect a y') :
    Judged x y' := by
  cases h with
  | headerSent n hs hev hf => exact ⟨by simp, hj.taken, by simp⟩
  | headerRead n hs hev hl hw =>
    obtain ⟨hr, ht, hb⟩ := hd.protohdr_read hs hl
    rw [hb, accepts_protohdr]
    cases hp : sockIspeer y.socktype x.socktype.protocol with
    | true => exact ⟨fun _ => hp, hj.taken, by simp⟩
    | false => exact ⟨by simp, hj.taken, by simp⟩
  | started n hs hev hf =>
    exact ⟨fun _ => hj.accepted (.inl hs), hj.taken, by simp⟩
  | tooLarge => exact ⟨by simp, hj.taken, by simp⟩
  | empty n hs hev hc hl hsize =>
    have hw := (hv.of_received (by simp [hev])).1
    exact ⟨hj.accepted, hj.taken, fun _ _ => by simp [End.Allows, hw]⟩
  | bodyAwaited n hs hev hc hl hsize hf =>
    refine ⟨hj.accepted, hj.taken, fun _ _ h0 => ?_⟩
    rw [hf.length]
    exact not_lt.mp fun hlt => hsize ⟨h0, hlt⟩
  | bodyRead n hs hev hc hw =>
    exact ⟨hj.accepted, hj.taken, fun _ _ => hj.current hs (.inl hc)⟩
  | fdIn n hs hev hwant hf =>
    exact ⟨hj.accepted, hj.taken, fun h hc => by rw [hf.length]; exact hj.current h hc⟩
  | recv n hs hev hi hc hf =>
    have hcur := hj.current hs (.inr hc)
    refine ⟨hj.accepted, fun b hb => ?_, by simp⟩
    rcases List.mem_append.mp hb with hb | hb
    · exact hj.taken b hb
    · rw [List.mem_singleton.mp hb]
      exact fun h0 => (by omega : (y.buf.length : ℤ) ≤ y.buf.length + y.want).trans (hcur h0)
  | written | outReady | inReady | fdOut | send => exact hj.congr rfl

/-- More messages are sent. -/
theorem Judged.send {x' : End} (hj : Judged x y) (h : x.Effect a x') : Judged x' y := by
  refine ⟨?_, hj.taken, hj.current⟩
  rw [h.socktype_eq]
  exact hj.accepted

/-! ## Sessions that are over -/

/-- **A step of an end** ends its session for one of the two reasons. -/
theorem Delivers.faulted (hd : Delivers x y) (h : y.Effect a y') : Faulted x y' := by
  intro hdone
  cases h with
  | headerRead n hs hev hl hw =>
    obtain ⟨-, -, hb⟩ := hd.protohdr_read hs hl
    rw [hb, accepts_protohdr] at hdone
    cases hp : sockIspeer y.socktype x.socktype.protocol with
    | true => simp [hp] at hdone
    | false => exact .inl rfl
  | tooLarge n hs hev hc hl hsize =>
    obtain ⟨ps, p, rest, hsent, ht, hb, -⟩ := hd.header_read hs hc hl
    rw [hb, toNat_getll_outhdr] at hsize
    exact .inr ⟨ps, p, rest, hsent, ht, fun hle => (hle hsize.1).not_gt hsize.2⟩
  | headerSent | started => cases hdone
  | written n hs | outReady n hs | empty n hs | bodyAwaited n hs | bodyRead n hs | inReady n hs
  | send _ n hs | recv n hs =>
    rw [hs] at hdone
    cases hdone
  | fdOut n hs => rcases hs with hs | hs <;> rw [hs] at hdone <;> cases hdone
  | fdIn n hs => exact absurd hdone hs

/-- More messages are sent. -/
theorem Faulted.send {x' : End} (hf : Faulted x y) (h : x.Effect a x') : Faulted x' y := by
  intro hdone
  obtain ⟨more, hsent, -⟩ := h.outBytes_eq
  rw [h.socktype_eq]
  rcases hf hdone with h | ⟨ps, p, rest, hps, ht, hp⟩
  · exact .inl h
  · exact .inr ⟨ps, p, rest ++ more, by rw [hsent, hps]; simp, ht, hp⟩

end Petunia.Ipc
