import Petunia.Ipc.Connection

set_option autoImplicit false

/-!
# The pipe of a socket

A `NN_PAIR` socket talks to one peer at a time: `excl.c` refuses a pipe while it has one.

* `Excl`, `exclAdd`, `exclRm`, `exclIn`, `exclOut`: the one pipe of a socket;
* `exclAct`: what the steps of an end do to it (`exclAct_exclOf`: no assertion fails);
* `Socket.Sound`: a socket knows which of its ends is active, and has logged what its sessions have
  exchanged;
* `Socket.Sound.step`, `Socket.Sound.close`: this goes on.
-/

namespace Petunia.Ipc

open CTypes Lts

/-! ## The pipe of a socket -/

/-- `nn_excl`. -/
structure Excl (π : Type*) where
  pipe : Option π
  inpipe : Option π
  outpipe : Option π
  deriving DecidableEq

/-- `nn_excl_init`. -/
def exclInit {π : Type*} : Excl π := ⟨none, none, none⟩

section

variable {π : Type*} [DecidableEq π]

/-- `nn_excl_add`; `none` is `-EISCONN`. -/
def exclAdd (self : Excl π) (pipe : π) : Option (Excl π) :=
  if self.pipe = none then some { self with pipe := some pipe } else none

/-- `nn_excl_rm`; `none` is a failed assertion, as in `exclIn` and `exclOut`. -/
def exclRm (self : Excl π) : Option (Excl π) := if self.pipe = none then none else some exclInit

/-- `nn_excl_in`. -/
def exclIn (self : Excl π) (pipe : π) : Option (Excl π) :=
  if self.inpipe = none ∧ self.pipe = some pipe then some { self with inpipe := some pipe } else none

/-- `nn_excl_out`. -/
def exclOut (self : Excl π) (pipe : π) : Option (Excl π) :=
  if self.outpipe = none ∧ self.pipe = some pipe then some { self with outpipe := some pipe }
  else none

/-- `nn_pipebase_stop`. -/
def pipebaseStop (self : Excl π) (e : End) : Option (Excl π) :=
  if e.state = .active then exclRm self else some self

/-- What the socket does with its pipe when the end of `p` steps from `e` to `e'`. -/
def exclAct (self : Excl π) (p : π) (e e' : End) : End.Act → Option (Excl π)
  | .process _ =>
    match e.events.head? with
    | some .pipeOut => exclOut self p
    | some .pipeIn => exclIn self p
    | _ => if e'.state = .done then pipebaseStop self e else some self
  | .stopped _ => exclAdd self p
  | .send .. => some (if e'.outpipe then self else { self with outpipe := none })
  | .recv _ => some (if e'.inpipe then self else { self with inpipe := none })
  | .fdOut _ | .fdIn _ => some self

/-- `nn_excl_send` and `nn_excl_recv` return `-EAGAIN` without a pipe. -/
def End.Act.ready (self : Excl π) (p : π) : End.Act → Bool
  | .send .. => self.outpipe = some p
  | .recv _ => self.inpipe = some p
  | _ => true

/-- `nn_pipebase_start` fails. -/
def End.Act.refused (self : Excl π) (p : π) : End.Act → Bool
  | .stopped _ => (exclAdd self p).isNone
  | _ => false

/-- A socket, with a log of the sessions it has started, what it has sent and what it has handed
out. -/
structure Socket (π : Type*) where
  excl : Excl π
  started : List π
  sent : List Payload
  received : List Bytes

/-- `nn_sock_init`. -/
def Socket.init : Socket π := ⟨exclInit, [], [], []⟩

/-- The session that a step starts. -/
def End.Act.starts (p : π) : End.Act → List π
  | .stopped _ => [p]
  | _ => []

/-- The message that a step sends. -/
def End.Act.sends : End.Act → List Payload
  | .send sphdr body size_lt _ => [⟨sphdr ++ body, size_lt⟩]
  | _ => []

/-- The message that a step hands out. -/
def End.Act.takes (e : End) : End.Act → List Bytes
  | .recv _ => [e.buf]
  | _ => []

/-- The socket after a step of one of its ends. -/
def Socket.after (k : Socket π) (p : π) (e : End) (a : End.Act) (excl : Excl π) : Socket π where
  excl
  started := k.started ++ a.starts p
  sent := k.sent ++ a.sends
  received := k.received ++ a.takes e

end

/-! ## The ends of a socket -/

section

variable {π : Type*} {p : π} {e e' : End} {a : End.Act}

/-- The pipe of a socket whose end `p` may have it. -/
def exclOf (p : π) (e : End) : Excl π :=
  if e.state = .active then
    ⟨some p, if e.inpipe then some p else none, if e.outpipe then some p else none⟩
  else exclInit

theorem exclOf_active (hs : e.state = .active) : exclOf p e =
    ⟨some p, if e.inpipe then some p else none, if e.outpipe then some p else none⟩ :=
  if_pos hs

theorem exclOf_of_not_active (hs : e.state ≠ .active) : exclOf p e = exclInit := if_neg hs

theorem pipe_exclOf {q : π} : (exclOf p e).pipe = some q ↔ p = q ∧ e.state = .active := by
  by_cases hs : e.state = .active
  · rw [exclOf_active hs]
    exact Option.some_inj.trans (and_iff_left hs).symm
  · rw [exclOf_of_not_active hs]
    exact iff_of_false nofun fun h => hs h.2

theorem exclOf_congr (h : (e'.state, e'.inpipe, e'.outpipe) = (e.state, e.inpipe, e.outpipe)) :
    exclOf p e' = exclOf p e := by
  simp only [Prod.mk.injEq] at h
  unfold exclOf
  rw [h.1, h.2.1, h.2.2]

/-- Nothing happens at an end whose session is over. -/
theorem End.Effect.state_ne_done (h : e.Effect a e') : e.state ≠ .done := by
  cases h with
  | headerSent n hs | headerRead n hs | started n hs | written n hs | outReady n hs | tooLarge n hs
  | empty n hs | bodyAwaited n hs | bodyRead n hs | inReady n hs | send _ n hs | recv n hs =>
    rw [hs]
    nofun
  | fdOut n hs => rcases hs with hs | hs <;> rw [hs] <;> nofun
  | fdIn n hs => exact hs

/-- An active session goes on or ends. -/
theorem End.Effect.of_active (h : e.Effect a e') (hs : e.state = .active) :
    (e'.state = .active ∨ e'.state = .done) ∧ a.starts p = [] := by
  cases h with
  | headerSent n hs' | headerRead n hs' | started n hs' => rw [hs] at hs'; cases hs'
  | tooLarge => exact ⟨.inr rfl, rfl⟩
  | _ => exact ⟨.inl hs, rfl⟩

/-- Only an active session sends or hands out a message. -/
theorem End.Effect.of_not_active (h : e.Effect a e') (hs : e.state ≠ .active) :
    a.sends = [] ∧ a.takes e = [] := by
  cases h with
  | send _ n hs' | recv n hs' => exact absurd hs' hs
  | _ => exact ⟨rfl, rfl⟩

/-- What a step adds to the messages of its end. -/
theorem End.Effect.logs (h : e.Effect a e') :
    e'.sent = e.sent ++ a.sends ∧ e'.taken = e.taken ++ a.takes e := by
  cases h with
  | send => exact ⟨rfl, (List.append_nil _).symm⟩
  | recv => exact ⟨(List.append_nil _).symm, rfl⟩
  | _ => exact ⟨(List.append_nil _).symm, (List.append_nil _).symm⟩

end

/-! ## The assertions -/

section

variable {π : Type*} [DecidableEq π] {p : π} {e e' : End} {a : End.Act}

/-- **The assertions of `excl.c`** hold for the end that is active. -/
theorem exclAct_exclOf (hs : e.state = .active) (h : e.Effect a e') :
    exclAct (exclOf p e) p e e' a = some (exclOf p e') := by
  rw [exclOf_active hs]
  cases h with
  | headerSent n hs' | headerRead n hs' | started n hs' => rw [hs] at hs'; cases hs'
  | written n hs' hev | empty n hs' hev | bodyAwaited n hs' hev | bodyRead n hs' hev =>
    rw [exclOf_active]
    · simp only [exclAct, hev, List.head?_cons, hs, reduceCtorEq, if_false]
    · exact hs
  | outReady n hs' hev ho =>
    rw [exclOf_active]
    · simp only [exclAct, hev, List.head?_cons, exclOut, ho]
      simp
    · exact hs
  | tooLarge n hs' hev =>
    rw [exclOf_of_not_active]
    · simp only [exclAct, hev, List.head?_cons, pipebaseStop, hs, exclRm]
      rfl
    · simp
  | inReady n hs' hev hi =>
    rw [exclOf_active]
    · simp only [exclAct, hev, List.head?_cons, exclIn, hi]
      simp
    · exact hs
  | fdOut | fdIn | send | recv =>
    rw [exclOf_active]
    · rfl
    · exact hs

/-- An end that is not active leaves the pipe of its socket alone. -/
theorem exclAct_of_not_active {self : Excl π} (hs : e.state ≠ .active) (h : e.Effect a e')
    (ha : a.starts p = []) : exclAct self p e e' a = some self ∧ e'.state ≠ .active := by
  cases h with
  | headerSent n hs' hev =>
    simp [exclAct, hev]
  | headerRead n hs' hev =>
    simp only [exclAct, hev, List.head?_cons, pipebaseStop, if_neg hs, ite_self, true_and]
    split_ifs <;> simp
  | started => cases ha
  | fdOut | fdIn => exact ⟨rfl, hs⟩
  | written n hs' | outReady n hs' | tooLarge n hs' | empty n hs' | bodyAwaited n hs'
  | bodyRead n hs' | inReady n hs' | send _ n hs' | recv n hs' => exact absurd hs' hs

/-- A session that starts takes the pipe. -/
theorem exclAct_started (hv : e.Valid) (h : e.Effect a e') (ha : a.starts p ≠ []) :
    exclAct exclInit p e e' a = some (exclOf p e') ∧ e'.state = .active ∧ a.starts p = [p] := by
  cases h with
  | started n hs hev =>
    refine ⟨?_, rfl, rfl⟩
    have hi : e.inpipe = false := hv.inp.of_not_active (by simp [hs])
    have ho : e.outpipe = false := (hv.out.of_not_active (by simp [hs]) (by simp [hs])).1
    rw [exclOf_active]
    · simp only [exclAct, exclAdd, exclInit, hi, ho]
      rfl
    · rfl
  | _ => exact absurd rfl ha

end

/-! ## A socket and its ends -/

section

variable {π α : Type*}

variable {ends ends' : π → End} {f : End → List α} {l : List π}

section

variable [DecidableEq π] {p : π} {e : End}

/-- The logs of sessions that a step is not about. -/
theorem flatMap_update (hp : p ∉ l) : l.flatMap (fun q => f (Function.update ends p e q)) =
    l.flatMap fun q => f (ends q) :=
  List.flatMap_congr fun q hq => by
    rw [Function.update_of_ne (ne_of_mem_of_not_mem hq hp)]

/-- The logs of all sessions after the last one has grown. -/
theorem flatMap_update_last (hn : l.Nodup) (hp : l.getLast? = some p) {xs : List α}
    (hf : f e = f (ends p) ++ xs) : l.flatMap (fun q => f (Function.update ends p e q)) =
      l.flatMap (fun q => f (ends q)) ++ xs := by
  obtain ⟨l, rfl⟩ := List.getLast?_eq_some_iff.mp hp
  have hnp : p ∉ l := fun h => (List.nodup_append.mp hn).2.2 p h p (List.mem_singleton_self p) rfl
  rw [List.flatMap_append, List.flatMap_append, flatMap_update hnp, List.flatMap_singleton,
    List.flatMap_singleton, Function.update_self, hf, List.append_assoc]

/-- The logs after a session has started. -/
theorem flatMap_update_concat (hp : p ∉ l) (hf : f e = []) :
    (l ++ [p]).flatMap (fun q => f (Function.update ends p e q)) = l.flatMap fun q => f (ends q) := by
  rw [List.flatMap_append, flatMap_update hp, List.flatMap_singleton, Function.update_self, hf,
    List.append_nil]

end

/-- What a socket knows of its ends: which one is active, and what its sessions have exchanged. -/
structure Socket.Sound (k : Socket π) (mine : π → Prop) (ends : π → End) : Prop where
  pipe : ∀ p, k.excl.pipe = some p ↔ mine p ∧ (ends p).state = .active
  excl : ∀ p, k.excl.pipe = some p → k.excl = exclOf p (ends p)
  free : k.excl.pipe = none → k.excl = exclInit
  nodup : k.started.Nodup
  mem : ∀ p ∈ k.started, mine p ∧ ((ends p).state = .active ∨ (ends p).state = .done)
  last : ∀ p, k.excl.pipe = some p → k.started.getLast? = some p
  fresh : ∀ p, mine p → p ∉ k.started → (ends p).sent = [] ∧ (ends p).taken = []
  sent : k.sent = k.started.flatMap fun p => (ends p).sent
  received : k.received = k.started.flatMap fun p => (ends p).taken

namespace Socket.Sound

variable {k : Socket π} {mine : π → Prop}

/-- Other ends, and the bytes in the kernel, are no concern of the socket. -/
theorem congr (h : k.Sound mine ends) (he : ∀ p, mine p →
    ((ends' p).state, (ends' p).inpipe, (ends' p).outpipe, (ends' p).sent, (ends' p).taken) =
      ((ends p).state, (ends p).inpipe, (ends p).outpipe, (ends p).sent, (ends p).taken)) :
    k.Sound mine ends' := by
  simp only [Prod.mk.injEq] at he
  have hmem : ∀ p ∈ k.started, mine p := fun p hp => (h.mem p hp).1
  refine ⟨fun p => ?_, fun p hp => ?_, h.free, h.nodup, fun p hp => ?_, h.last, fun p hp hn => ?_,
    ?_, ?_⟩
  · rw [h.pipe p]
    exact and_congr_right fun hp => by rw [(he p hp).1]
  · have := he p ((h.pipe p).mp hp).1
    rw [h.excl p hp, exclOf_congr]
    rw [this.1, this.2.1, this.2.2.1]
  · rw [(he p (hmem p hp)).1]
    exact h.mem p hp
  · rw [(he p hp).2.2.2.1, (he p hp).2.2.2.2]
    exact h.fresh p hp hn
  · rw [h.sent]
    exact List.flatMap_congr fun p hp => (he p (hmem p hp)).2.2.2.1.symm
  · rw [h.received]
    exact List.flatMap_congr fun p hp => (he p (hmem p hp)).2.2.2.2.symm

variable [DecidableEq π] {p : π} {e : End}

/-- **A step of the active end.** -/
theorem active (h : k.Sound mine ends) (hp : k.excl.pipe = some p)
    (hs : e.state = .active ∨ e.state = .done) {sent : List Payload} {taken : List Bytes}
    (hsent : e.sent = (ends p).sent ++ sent) (htaken : e.taken = (ends p).taken ++ taken) :
    Sound ⟨exclOf p e, k.started, k.sent ++ sent, k.received ++ taken⟩ mine
      (Function.update ends p e) := by
  have hother : ∀ q, q ≠ p → Function.update ends p e q = ends q := fun q hq =>
    Function.update_of_ne hq ..
  have hself : Function.update ends p e p = e := Function.update_self ..
  have hlast := h.last p hp
  have hmem : p ∈ k.started := List.mem_of_getLast? hlast
  refine ⟨fun q => ?_, fun q hq => ?_, fun hn => ?_, h.nodup, fun q hq => ?_, fun q hq => ?_,
    fun q hq hn => ?_, ?_, ?_⟩
  · rw [pipe_exclOf]
    constructor
    · rintro ⟨rfl, ha⟩
      exact ⟨(h.mem p hmem).1, hself.symm ▸ ha⟩
    · rintro ⟨hq, ha⟩
      by_cases hqp : q = p
      · subst hqp
        exact ⟨rfl, hself ▸ ha⟩
      · rw [hother q hqp] at ha
        exact absurd (Option.some.inj (((h.pipe q).mpr ⟨hq, ha⟩).symm.trans hp)) hqp
  · obtain ⟨rfl, -⟩ := pipe_exclOf.mp hq
    rw [hself]
  · refine exclOf_of_not_active fun ha => ?_
    cases (pipe_exclOf.mpr ⟨rfl, ha⟩).symm.trans hn
  · by_cases hqp : q = p
    · subst hqp
      rw [hself]
      exact ⟨(h.mem q hq).1, hs⟩
    · rw [hother q hqp]
      exact h.mem q hq
  · obtain ⟨rfl, -⟩ := pipe_exclOf.mp hq
    exact hlast
  · have hqp : q ≠ p := fun h => hn (h ▸ hmem)
    rw [hother q hqp]
    exact h.fresh q hq hn
  · rw [h.sent]
    exact (flatMap_update_last h.nodup hlast hsent).symm
  · rw [h.received]
    exact (flatMap_update_last h.nodup hlast htaken).symm

/-- A step of an end whose session has not started. -/
theorem idle (h : k.Sound mine ends) (hp : p ∉ k.started) (hs : (ends p).state ≠ .active)
    (hs' : e.state ≠ .active) (hsent : e.sent = (ends p).sent)
    (htaken : e.taken = (ends p).taken) : k.Sound mine (Function.update ends p e) := by
  have hself : Function.update ends p e p = e := Function.update_self ..
  have hother : ∀ q, q ≠ p → Function.update ends p e q = ends q := fun q hq =>
    Function.update_of_ne hq ..
  have hstarted : ∀ q ∈ k.started, Function.update ends p e q = ends q := fun q hq =>
    hother q fun hqp => hp (hqp ▸ hq)
  refine ⟨fun q => ?_, fun q hq => ?_, h.free, h.nodup, fun q hq => ?_, h.last, fun q hq hn => ?_,
    ?_, ?_⟩
  · rw [h.pipe q]
    by_cases hqp : q = p
    · rw [hqp, hself]
      exact and_congr_right fun _ => iff_of_false hs hs'
    · rw [hother q hqp]
  · have hqp : q ≠ p := fun hqp => hs (hqp ▸ ((h.pipe q).mp hq).2)
    rw [hother q hqp]
    exact h.excl q hq
  · rw [hstarted q hq]
    exact h.mem q hq
  · by_cases hqp : q = p
    · rw [hqp, hself, hsent, htaken]
      exact hqp ▸ h.fresh q hq hn
    · rw [hother q hqp]
      exact h.fresh q hq hn
  · rw [h.sent]
    exact (flatMap_update hp).symm
  · rw [h.received]
    exact (flatMap_update hp).symm

/-- **A session starts** at a socket that has no pipe. -/
theorem start (h : k.Sound mine ends) (hm : mine p) (hk : k.excl.pipe = none) (hp : p ∉ k.started)
    (hs : e.state = .active) (hsent : e.sent = (ends p).sent) (htaken : e.taken = (ends p).taken) :
    Sound ⟨exclOf p e, k.started ++ [p], k.sent, k.received⟩ mine (Function.update ends p e) := by
  have hself : Function.update ends p e p = e := Function.update_self ..
  have hother : ∀ q, q ≠ p → Function.update ends p e q = ends q := fun q hq =>
    Function.update_of_ne hq ..
  have hstarted : ∀ q ∈ k.started, Function.update ends p e q = ends q := fun q hq =>
    hother q fun hqp => hp (hqp ▸ hq)
  obtain ⟨hsent₀, htaken₀⟩ := h.fresh p hm hp
  have hpipe : ∀ q, (exclOf p e).pipe = some q ↔ p = q := fun q =>
    pipe_exclOf.trans (and_iff_left hs)
  refine ⟨fun q => (hpipe q).trans ?_, fun q hq => ?_, fun hn => ?_, ?_, fun q hq => ?_,
    fun q hq => ?_, fun q hq hn => ?_, ?_, ?_⟩
  · constructor
    · rintro rfl
      exact ⟨hm, hself.symm ▸ hs⟩
    · rintro ⟨hq, ha⟩
      by_contra hne
      rw [hother q (Ne.symm hne)] at ha
      cases ((h.pipe q).mpr ⟨hq, ha⟩).symm.trans hk
  · obtain rfl := (hpipe q).mp hq
    rw [hself]
  · cases ((hpipe p).mpr rfl).symm.trans hn
  · refine List.nodup_append.mpr ⟨h.nodup, List.pairwise_singleton _ p, fun q hq r hr => ?_⟩
    rw [List.mem_singleton.mp hr]
    exact fun hqp => hp (hqp ▸ hq)
  · rcases List.mem_append.mp hq with hq | hq
    · rw [hstarted q hq]
      exact h.mem q hq
    · rw [List.mem_singleton.mp hq, hself]
      exact ⟨hm, .inl hs⟩
  · rw [List.getLast?_concat, (hpipe q).mp hq]
  · have hqp : q ≠ p := fun hqp =>
      hn (List.mem_append_right _ (List.mem_singleton.mpr hqp))
    rw [hother q hqp]
    exact h.fresh q hq fun hq => hn (List.mem_append_left _ hq)
  · rw [h.sent]
    exact (flatMap_update_concat hp (hsent.trans hsent₀)).symm
  · rw [h.received]
    exact (flatMap_update_concat hp (htaken.trans htaken₀)).symm

/-- **A step of an end** that its socket does not refuse: no assertion of `excl.c` fails. -/
theorem step {a : End.Act} (h : k.Sound mine ends) (hm : mine p) (hv : (ends p).Valid)
    (he : (ends p).Effect a e) (hr : a.refused k.excl p = false) :
    ∃ excl, exclAct k.excl p (ends p) e a = some excl ∧
      (k.after p (ends p) a excl).Sound mine (Function.update ends p e) := by
  obtain ⟨hsent, htaken⟩ := he.logs
  by_cases hs : (ends p).state = .active
  · have hp := (h.pipe p).mpr ⟨hm, hs⟩
    obtain ⟨hs', hstarts⟩ := he.of_active (p := p) hs
    refine ⟨exclOf p e, h.excl p hp ▸ exclAct_exclOf hs he, ?_⟩
    rw [Socket.after, hstarts, List.append_nil]
    exact h.active hp hs' hsent htaken
  have hn : p ∉ k.started := fun hp => ((h.mem p hp).2.resolve_left hs |> he.state_ne_done)
  obtain ⟨hsends, htakes⟩ := he.of_not_active hs
  rw [hsends, List.append_nil] at hsent
  rw [htakes, List.append_nil] at htaken
  have hafter : ∀ excl, k.after p (ends p) a excl =
      ⟨excl, k.started ++ a.starts p, k.sent, k.received⟩ := fun excl => by
    rw [Socket.after, hsends, htakes, List.append_nil, List.append_nil]
  by_cases ha : a.starts p = []
  · obtain ⟨hex, hs'⟩ := exclAct_of_not_active hs he ha
    refine ⟨k.excl, hex, ?_⟩
    rw [hafter, ha, List.append_nil]
    exact h.idle hn hs hs' hsent htaken
  · obtain ⟨hex, hs', hstarts⟩ := exclAct_started hv he ha
    have hk : k.excl.pipe = none := by
      cases a with
      | stopped n =>
        by_contra hk
        rw [End.Act.refused, exclAdd, if_neg hk] at hr
        cases hr
      | _ => exact absurd rfl ha
    refine ⟨exclOf p e, h.free hk ▸ hex, ?_⟩
    rw [hafter, hstarts]
    exact h.start hm hk hn hs' hsent htaken

omit [DecidableEq π] in
/-- **A session that ends** gives up the pipe. -/
theorem exists_pipebaseStop (h : k.Sound mine ends) (hm : mine p) :
    ∃ excl, pipebaseStop k.excl (ends p) = some excl := by
  unfold pipebaseStop
  split_ifs with hs
  · rw [exclRm, (h.pipe p).mpr ⟨hm, hs⟩, if_neg nofun]
    exact ⟨_, rfl⟩
  · exact ⟨_, rfl⟩

theorem close {excl : Excl π} (h : k.Sound mine ends) (hm : mine p) (hd : (ends p).state ≠ .done)
    (hex : pipebaseStop k.excl (ends p) = some excl) :
    Sound { k with excl } mine (Function.update ends p (ends p).close) := by
  have hclose : (ends p).close.state ≠ .active := nofun
  unfold pipebaseStop at hex
  split_ifs at hex with hs
  · have hp := (h.pipe p).mpr ⟨hm, hs⟩
    rw [exclRm, hp, if_neg nofun] at hex
    obtain rfl := Option.some.inj hex
    have hactive := h.active (e := (ends p).close) hp (.inr rfl) (List.append_nil _).symm
      (List.append_nil _).symm
    rwa [List.append_nil, List.append_nil, exclOf_of_not_active hclose] at hactive
  · obtain rfl := Option.some.inj hex
    exact h.idle (fun hp => hd ((h.mem p hp).2.resolve_left hs)) hs hclose rfl rfl

end Socket.Sound

end

end Petunia.Ipc
