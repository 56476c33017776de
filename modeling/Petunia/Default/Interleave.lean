import Petunia.Default.SharedConnection

set_option autoImplicit false

/-!
# Interleavings on one connection

As long as every `BEGIN` finds no transaction open, the two calls do not touch each other: the
transaction on the connection is that of the thread between its `BEGIN` and its `COMMIT`, and each
thread does what it would do alone.

* `Calls.Inv`, `Calls.Inv.step`: who holds the transaction;
* `Calls.SendAgrees`, `Calls.ReceiveAgrees`: the part of the state that a thread reads, left alone
  by the other thread (`SendEffect.receiveAgrees`, `ReceiveEffect.sendAgrees`);
* **`Calls.exists_solo_send`**, **`Calls.exists_solo_receive`**: a run of both threads contains the
  run of each thread alone.
-/

namespace Petunia

open CTypes Lts Sql

@[simp] theorem SendPc.inTxn_loop (outbox : List (Tagged Message)) :
    (SendPc.loop outbox).inTxn = true := by
  cases outbox with
  | nil => rfl
  | cons m rest => simp only [loop]; split_ifs <;> rfl

theorem SendPc.loop_ne_changes (outbox : List (Tagged Message)) :
    SendPc.loop outbox ≠ .changes := by
  cases outbox with
  | nil => simp [loop]
  | cons m rest => simp only [loop]; split_ifs <;> simp

theorem SendPc.ne_begin_of_inTxn {pc : SendPc} (h : pc.inTxn = true) : pc ≠ .begin := by
  rintro rfl
  exact Bool.noConfusion h

theorem SendPc.error_of_inTxn {pc : SendPc} (h : pc.inTxn = true) {e : Error}
    (he : pc = .failed e) : e = .tooBig := by
  subst he
  cases e with
  | tooBig => rfl
  | nestedTransaction => exact Bool.noConfusion h
  | noTransaction => exact Bool.noConfusion h

namespace Calls

/-! ## Who holds the transaction -/

/-- The transaction on the connection is that of the thread between its `BEGIN` and its `COMMIT`.
`written` is the outgoing table before the `SendMessages` call. -/
structure Inv (written : MessageTable) (s : Calls) : Prop where
  exclusive : s.send.inTxn = true → s.receive.inTxn = false
  sendTxn : s.send.inTxn = true → s.conn.saved = some ⟨written, s.conn.db.incoming⟩
  receiveTxn : s.receive.inTxn = true → s.conn.saved ≠ none
  noTxn : s.send.inTxn = false → s.receive.inTxn = false → s.conn.saved = none
  unwritten : s.send = .begin → s.conn.db.outgoing = written
  sendError : ∀ e, s.send = .failed e → e = .tooBig
  receiveError : ∀ e, s.receive ≠ .failed e

theorem inv_start (db : Tables) (changes : ℕ) (outbox inbox : List (Tagged Message)) :
    Inv db.outgoing (start db changes outbox inbox) := by
  unfold start
  constructor <;> split_ifs <;> simp [SendPc.inTxn, ReceivePc.inTxn]

/-- The send thread reads the counter of its own `UPDATE`. -/
theorem Inv.receive_ne_delete {written : MessageTable} {s : Calls} (h : Inv written s)
    (hp : s.send = .changes) (n : ℕ) : s.receive ≠ .delete n := by
  intro hr
  have hx := h.exclusive (by rw [hp]; rfl)
  rw [hr] at hx
  exact Bool.noConfusion hx

theorem Inv.send_inTxn {written : MessageTable} {s : Calls} (h : Inv written s)
    (hr : s.receive.inTxn = true) : s.send.inTxn = false := by
  by_contra hs
  have hr' := h.exclusive (by simpa using hs)
  rw [hr] at hr'
  exact Bool.noConfusion hr'

/-- A thread in its transaction can commit it. -/
theorem Inv.commit {written : MessageTable} {s : Calls} (h : Inv written s)
    (hp : s.send.inTxn = true ∨ s.receive.inTxn = true) :
    s.conn.commit = .ok { s.conn with saved := none } := by
  obtain ⟨d, hd⟩ : ∃ d, s.conn.saved = some d := by
    refine Option.ne_none_iff_exists'.mp ?_
    rcases hp with hp | hp
    · rw [h.sendTxn hp]; exact Option.some_ne_none _
    · exact h.receiveTxn hp
  exact Connection.commit_of_saved hd

/-- What the send thread does inside its transaction. -/
theorem Inv.within {written : MessageTable} {s s' : Calls} (h : Inv written s)
    (hr : s.receive.inTxn = false) (hp : s'.send.inTxn = true)
    (hs : s'.conn.saved = some ⟨written, s.conn.db.incoming⟩)
    (hin : s'.conn.db.incoming = s.conn.db.incoming) (hrec : s'.receive = s.receive) :
    Inv written s' where
  exclusive _ := by rw [hrec]; exact hr
  sendTxn _ := by rw [hs, hin]
  receiveTxn _ := by rw [hs]; exact Option.some_ne_none _
  noTxn hn := by rw [hp] at hn; exact Bool.noConfusion hn
  unwritten hb := absurd hb (SendPc.ne_begin_of_inTxn hp)
  sendError _ he := SendPc.error_of_inTxn hp he
  receiveError e := by rw [hrec]; exact h.receiveError e

theorem Inv.sendEffect {lim : Limits} {written : MessageTable} {s s' : Calls} (h : Inv written s)
    (hC : s.BeginsInAutocommit .send) (hs : SendEffect lim s s') : Inv written s' := by
  have inside : s.send.inTxn = true →
      s.receive.inTxn = false ∧ s.conn.saved = some ⟨written, s.conn.db.incoming⟩ :=
    fun hp => ⟨h.exclusive hp, h.sendTxn hp⟩
  cases hs with
  | begin hp ha =>
    -- no transaction is open, so the receive thread is in none
    have hr : s.receive.inTxn = false := by
      by_contra hr
      exact h.receiveTxn (by simpa using hr) ha
    exact h.within hr (SendPc.inTxn_loop _) (by simp [← h.unwritten hp]) rfl rfl
  | nested hp ha => exact absurd (hC hp) ha
  | update hp ho hb hfit =>
    obtain ⟨hr, hsaved⟩ := inside (by rw [hp]; rfl)
    exact h.within hr rfl hsaved rfl rfl
  | updated hp ho hc =>
    obtain ⟨hr, hsaved⟩ := inside (by rw [hp]; rfl)
    exact h.within hr (SendPc.inTxn_loop _) hsaved rfl rfl
  | unmatched hp ho hc =>
    obtain ⟨hr, hsaved⟩ := inside (by rw [hp]; rfl)
    exact h.within hr rfl hsaved rfl rfl
  | insert hp ho hb hfit =>
    obtain ⟨hr, hsaved⟩ := inside (by rw [hp]; rfl)
    exact h.within hr (SendPc.inTxn_loop _) hsaved rfl rfl
  | tooBig hp ho hb =>
    obtain ⟨hr, hsaved⟩ := inside (by rcases hp with hp | hp <;> rw [hp] <;> rfl)
    exact h.within hr rfl hsaved rfl rfl
  | commit hp hc =>
    obtain ⟨hr, -⟩ := inside (by rw [hp]; rfl)
    rw [h.commit (.inl (by rw [hp]; rfl))] at hc
    cases hc
    exact ⟨fun hn => Bool.noConfusion hn, fun hn => Bool.noConfusion hn,
      fun hn => by simp [hr] at hn, fun _ _ => rfl, fun hb => (nomatch hb),
      fun e he => (nomatch he), h.receiveError⟩
  | notBegun hp hc =>
    rw [h.commit (.inl (by rw [hp]; rfl))] at hc
    cases hc

theorem Inv.receiveEffect {written : MessageTable} {s s' : Calls} (h : Inv written s)
    (hC : s.BeginsInAutocommit .receive) (hs : ReceiveEffect s s') : Inv written s' := by
  cases hs with
  | row hp hr =>
    have hn : s.receive.inTxn = false := by rw [hp]; rfl
    exact ⟨fun _ => rfl, h.sendTxn, fun h' => Bool.noConfusion h', fun hs _ => h.noTxn hs hn,
      h.unwritten, h.sendError, fun e he => (nomatch he)⟩
  | eof hp hr =>
    have hn : s.receive.inTxn = false := by rw [hp]; rfl
    refine ⟨fun _ => ?_, h.sendTxn, ?_, fun hs _ => h.noTxn hs hn, h.unwritten, h.sendError, ?_⟩
    all_goals split_ifs <;> simp [ReceivePc.inTxn]
  | @begin n hp ha =>
    have hs : s.send.inTxn = false := by
      by_contra hs
      have := h.sendTxn (by simpa using hs)
      exact Option.some_ne_none _ (this.symm.trans ha)
    exact ⟨fun h' => by simp [hs] at h', fun h' => by simp [hs] at h',
      fun _ => Option.some_ne_none _, fun _ h' => Bool.noConfusion h', h.unwritten, h.sendError,
      fun e he => (nomatch he)⟩
  | nested hp ha => exact absurd (hC _ hp) ha
  | delete hp =>
    have hr : s.receive.inTxn = true := by rw [hp]; rfl
    have hs := h.send_inTxn hr
    exact ⟨fun h' => by simp [hs] at h', fun h' => by simp [hs] at h',
      fun _ => h.receiveTxn hr, fun _ h' => Bool.noConfusion h', h.unwritten, h.sendError,
      fun e he => (nomatch he)⟩
  | commit hp hc =>
    have hr : s.receive.inTxn = true := by rw [hp]; rfl
    have hs := h.send_inTxn hr
    rw [h.commit (.inr hr)] at hc
    cases hc
    exact ⟨fun _ => rfl, fun h' => by simp [hs] at h', fun h' => Bool.noConfusion h',
      fun _ _ => rfl, h.unwritten, h.sendError, fun e he => (nomatch he)⟩
  | notBegun hp hc =>
    rw [h.commit (.inr (by rw [hp]; rfl))] at hc
    cases hc

/-- **The transaction on the connection stays that of one thread**, as long as every `BEGIN` finds
none open. -/
theorem Inv.step {lim : Limits} {written : MessageTable} {s s' : Calls} {th : Thread}
    (h : Inv written s) (hC : s.BeginsInAutocommit th) (hs : s.step lim th = some s') :
    Inv written s' := by
  cases th with
  | send => exact h.sendEffect hC (sendStep_iff.mp hs)
  | receive => exact h.receiveEffect hC (receiveStep_iff.mp hs)

/-! ## The part of each thread -/

/-- The two states agree on what the send thread reads. -/
structure SendAgrees (s t : Calls) : Prop where
  outbox : t.outbox = s.outbox
  outgoing : t.conn.db.outgoing = s.conn.db.outgoing
  send : t.send = s.send
  changes : s.send = .changes → t.conn.changes = s.conn.changes

/-- The two states agree on what the receive thread reads. -/
structure ReceiveAgrees (s t : Calls) : Prop where
  inbox : t.inbox = s.inbox
  incoming : t.conn.db.incoming = s.conn.db.incoming
  receive : t.receive = s.receive

theorem SendAgrees.refl (s : Calls) : SendAgrees s s := ⟨rfl, rfl, rfl, fun _ => rfl⟩

theorem ReceiveAgrees.refl (s : Calls) : ReceiveAgrees s s := ⟨rfl, rfl, rfl⟩

theorem SendAgrees.trans {s t u : Calls} (h : SendAgrees s t) (h' : SendAgrees t u) :
    SendAgrees s u :=
  ⟨h'.outbox.trans h.outbox, h'.outgoing.trans h.outgoing, h'.send.trans h.send,
    fun hc => (h'.changes (h.send.trans hc)).trans (h.changes hc)⟩

theorem ReceiveAgrees.trans {s t u : Calls} (h : ReceiveAgrees s t) (h' : ReceiveAgrees t u) :
    ReceiveAgrees s u :=
  ⟨h'.inbox.trans h.inbox, h'.incoming.trans h.incoming, h'.receive.trans h.receive⟩

/-- The send thread leaves alone what the receive thread reads. -/
theorem SendEffect.receiveAgrees {lim : Limits} {s s' : Calls} (h : SendEffect lim s s') :
    ReceiveAgrees s s' := by
  cases h with
  | commit hp hc =>
    rw [Connection.commit_eq_ok hc]
    exact ⟨rfl, rfl, rfl⟩
  | begin | nested | update | updated | unmatched | insert | tooBig | notBegun =>
    exact ⟨rfl, rfl, rfl⟩

/-- The receive thread leaves alone what the send thread reads, but for the change counter, which it
only moves by its `DELETE`. -/
theorem ReceiveEffect.sendAgrees {s s' : Calls} (h : ReceiveEffect s s')
    (hc : s.send = .changes → ∀ n, s.receive ≠ .delete n) : SendAgrees s s' := by
  cases h with
  | delete hp => exact ⟨rfl, rfl, rfl, fun hs => absurd hp (hc hs _)⟩
  | commit hp hc =>
    rw [Connection.commit_eq_ok hc]
    exact ⟨rfl, rfl, rfl, fun _ => rfl⟩
  | row | eof | begin | nested | notBegun => exact ⟨rfl, rfl, rfl, fun _ => rfl⟩

/-- **The send thread does the same where it reads the same.** -/
theorem SendAgrees.step {lim : Limits} {written : MessageTable} {s s' t : Calls} (h : SendAgrees s t)
    (hs : Inv written s) (ht : Inv written t) (hr : t.receive.inTxn = false)
    (hC : s.BeginsInAutocommit .send) (he : SendEffect lim s s') :
    ∃ t', SendEffect lim t t' ∧ SendAgrees s' t' := by
  cases he with
  | begin hp ha =>
    have hpt : t.send = .begin := h.send.trans hp
    have hat : t.conn.autocommit := ht.noTxn (by rw [hpt]; rfl) hr
    exact ⟨_, .begin hpt hat, h.outbox, h.outgoing, by simp only [h.outbox],
      fun hc => absurd hc (SendPc.loop_ne_changes s.outbox)⟩
  | nested hp ha => exact absurd (hC hp) ha
  | update hp ho hb hfit =>
    refine ⟨_, .update (h.send.trans hp) (h.outbox.trans ho) hb (by rwa [h.outgoing]), h.outbox, ?_,
      rfl, fun _ => ?_⟩
    · simp only [writeOutgoing, Connection.dml, h.outgoing]
    · simp only [writeOutgoing, Connection.dml, h.outgoing]
  | updated hp ho hc =>
    exact ⟨_, .updated (h.send.trans hp) (h.outbox.trans ho) (by rwa [h.changes hp]), rfl,
      h.outgoing, rfl, fun _ => h.changes hp⟩
  | unmatched hp ho hc =>
    exact ⟨_, .unmatched (h.send.trans hp) (h.outbox.trans ho) (by rwa [h.changes hp]), h.outbox,
      h.outgoing, rfl, fun _ => h.changes hp⟩
  | insert hp ho hb hfit =>
    refine ⟨_, .insert (h.send.trans hp) (h.outbox.trans ho) hb hfit, rfl, ?_, rfl, fun _ => rfl⟩
    simp only [writeOutgoing, Connection.dml, h.outgoing]
  | tooBig hp ho hb =>
    refine ⟨_, .tooBig (by rwa [h.send]) (h.outbox.trans ho) (by rwa [h.send, h.outgoing]),
      h.outbox, h.outgoing, rfl, ?_⟩
    exact fun hc => nomatch hc
  | commit hp hc =>
    rw [hs.commit (.inl (by rw [hp]; rfl))] at hc
    cases hc
    have hct := ht.commit (.inl (by rw [h.send, hp]; rfl))
    exact ⟨_, .commit (h.send.trans hp) hct, h.outbox, h.outgoing, rfl, fun hn => nomatch hn⟩
  | notBegun hp hc =>
    rw [hs.commit (.inl (by rw [hp]; rfl))] at hc
    cases hc

/-- **The receive thread does the same where it reads the same.** -/
theorem ReceiveAgrees.step {written : MessageTable} {s s' t : Calls} (h : ReceiveAgrees s t)
    (hs : Inv written s) (ht : Inv written t) (hr : t.send.inTxn = false)
    (hC : s.BeginsInAutocommit .receive) (he : ReceiveEffect s s') :
    ∃ t', ReceiveEffect t t' ∧ ReceiveAgrees s' t' := by
  cases he with
  | row hp hn =>
    refine ⟨_, .row (h.receive.trans hp) (by rw [h.incoming, hn]), ?_, h.incoming, rfl⟩
    simp only [h.inbox]
  | eof hp hn =>
    exact ⟨_, .eof (h.receive.trans hp) (by rw [h.incoming, hn]), h.inbox, h.incoming, rfl⟩
  | begin hp ha =>
    have hpt := h.receive.trans hp
    have hat : t.conn.autocommit := ht.noTxn hr (by rw [hpt]; rfl)
    exact ⟨_, .begin hpt hat, h.inbox, h.incoming, rfl⟩
  | nested hp ha => exact absurd (hC _ hp) ha
  | delete hp =>
    refine ⟨_, .delete (h.receive.trans hp), h.inbox, ?_, rfl⟩
    simp only [Connection.dml, h.incoming]
  | commit hp hc =>
    rw [hs.commit (.inr (by rw [hp]; rfl))] at hc
    cases hc
    have hct := ht.commit (.inr (by rw [h.receive, hp]; rfl))
    exact ⟨_, .commit (h.receive.trans hp) hct, h.inbox, h.incoming, rfl⟩
  | notBegun hp hc =>
    rw [hs.commit (.inr (by rw [hp]; rfl))] at hc
    cases hc

/-! ## Runs -/

/-- **A run of both threads contains a run of the send thread alone**, from every state in which the
send thread reads the same and the receive thread is outside its transaction. -/
theorem exists_solo_send {lim : Limits} {written : MessageTable} {s s' t : Calls} {as : List Thread}
    (h : exec (step lim) s as = some s') (hC : Along (step lim) BeginsInAutocommit s as)
    (hs : Inv written s) (ht : Inv written t) (hr : t.receive.inTxn = false)
    (ha : SendAgrees s t) :
    ∃ t', Reaches (solo lim .send) t t' ∧ Inv written s' ∧ Inv written t' ∧ SendAgrees s' t' ∧
      ReceiveAgrees t t' := by
  refine exec_simulation
    (R := fun s t' => Inv written s ∧ Inv written t' ∧ SendAgrees s t' ∧ ReceiveAgrees t t')
    ?_ h hC ⟨hs, ht, ha, .refl t⟩
  rintro s th s' u ⟨hs, hu, ha, hru⟩ hC hstep
  have hs' : Inv written s' := hs.step hC hstep
  cases th with
  | send =>
    have hr' : u.receive.inTxn = false := by rw [hru.receive]; exact hr
    obtain ⟨u', hu', ha'⟩ := ha.step hs hu hr' hC (sendStep_iff.mp hstep)
    have hCu : u.BeginsInAutocommit .send := fun hp => hu.noTxn (by rw [hp]; rfl) hr'
    exact ⟨u', .single (a := ()) (sendStep_iff.mpr hu'), hs', hu.sendEffect hCu hu', ha',
      hru.trans hu'.receiveAgrees⟩
  | receive =>
    have hf := (receiveStep_iff.mp hstep).sendAgrees hs.receive_ne_delete
    refine ⟨u, .refl u, hs', hu, ⟨ha.outbox.trans hf.outbox.symm,
      ha.outgoing.trans hf.outgoing.symm, ha.send.trans hf.send.symm, fun hc => ?_⟩, hru⟩
    have hc' : s.send = .changes := hf.send.symm.trans hc
    rw [hf.changes hc', ha.changes hc']

/-- **A run of both threads contains a run of the receive thread alone.** -/
theorem exists_solo_receive {lim : Limits} {written : MessageTable} {s s' t : Calls} {as : List Thread}
    (h : exec (step lim) s as = some s') (hC : Along (step lim) BeginsInAutocommit s as)
    (hs : Inv written s) (ht : Inv written t) (hr : t.send.inTxn = false)
    (ha : ReceiveAgrees s t) :
    ∃ t', Reaches (solo lim .receive) t t' ∧ Inv written s' ∧ Inv written t' ∧
      ReceiveAgrees s' t' ∧ SendAgrees t t' := by
  refine exec_simulation
    (R := fun s t' => Inv written s ∧ Inv written t' ∧ ReceiveAgrees s t' ∧ SendAgrees t t')
    ?_ h hC ⟨hs, ht, ha, .refl t⟩
  rintro s th s' u ⟨hs, hu, ha, hru⟩ hC hstep
  have hs' : Inv written s' := hs.step hC hstep
  cases th with
  | send =>
    have hf := (sendStep_iff.mp hstep).receiveAgrees
    exact ⟨u, .refl u, hs', hu, ⟨ha.inbox.trans hf.inbox.symm, ha.incoming.trans hf.incoming.symm,
      ha.receive.trans hf.receive.symm⟩, hru⟩
  | receive =>
    have hr' : u.send.inTxn = false := by rw [hru.send]; exact hr
    obtain ⟨u', hu', ha'⟩ := ha.step hs hu hr' hC (receiveStep_iff.mp hstep)
    have hCu : u.BeginsInAutocommit .receive := fun n hp => hu.noTxn hr' (by rw [hp]; rfl)
    exact ⟨u', .single (a := ()) (receiveStep_iff.mpr hu'), hs', hu.receiveEffect hCu hu', ha',
      hru.trans (hu'.sendAgrees hu.receive_ne_delete)⟩

end Calls

end Petunia
