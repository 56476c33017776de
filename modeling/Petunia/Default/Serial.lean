import Petunia.Default.Interleave

set_option autoImplicit false

/-!
# Which interleavings are serial

`SendMessages` and `ReceiveMessages` of one endpoint are serializable exactly in the interleavings
in which every `BEGIN` finds no transaction open on the shared connection: nothing in the code makes
the threads wait for each other, and a `BEGIN` inside the other call's transaction fails.

* `Calls.Serializable`: neither call fails because of the other, and the final tables, outbox and
  inbox are those of the two calls one after the other;
* `Calls.Writing`, `Calls.Reading`: what each call has done so far, whole calls being
  `sendMessages` and `receiveMessages` (**`Calls.sendMessages_of_returned`**,
  **`Calls.receiveMessages_of_returned`**);
* **`Calls.serializable_iff`**: the condition is necessary and sufficient.
-/

namespace Petunia

open CTypes Lts Sql

namespace Calls

/-! ## One call alone -/

/-- The write of the front message: how far it has come, from the table `t`. -/
def Front (lim : Limits) (t : MessageTable) (s : Calls) : Prop :=
  match s.send with
  | .update => s.conn.db.outgoing = t ∧ ∀ m ∈ s.outbox.head?, m.val.getOverwriteMode = true
  | .changes => ∀ m ∈ s.outbox.head?, m.val.getOverwriteMode = true ∧
      ∃ row, bindMessage lim m.val = some row ∧ (t.matched (hasType row.type) ≠ 0 → row.Fits lim) ∧
        s.conn.db.outgoing = updateMessageStmt t m.serial row ∧
        s.conn.changes = t.matched (hasType row.type)
  | .insert => s.conn.db.outgoing = t ∧ ∀ m ∈ s.outbox.head?, m.val.getOverwriteMode = true →
      ∀ row ∈ bindMessage lim m.val, t.matched (hasType row.type) = 0
  | .commit | .returned _ => s.conn.db.outgoing = t ∧ s.outbox = []
  | .begin | .failed _ => s.conn.db.outgoing = t

/-- A `SendMessages` call has written the messages that it has popped. -/
def Writing (lim : Limits) (written : MessageTable) (outbox : List (Tagged Message)) (s : Calls) :
    Prop :=
  (outbox = [] ↔ s.send = .returned false) ∧
    ∃ popped t, outbox = popped ++ s.outbox ∧
      exec (writeSendingMessage lim) written popped = some t ∧ s.Front lim t

theorem front_loop {lim : Limits} {s : Calls} {outbox : List (Tagged Message)} {t : MessageTable}
    (ht : s.conn.db.outgoing = t) :
    Front lim t { s with outbox, send := .loop outbox } := by
  cases outbox with
  | nil => exact ⟨ht, rfl⟩
  | cons m rest =>
    cases hm : m.val.getOverwriteMode with
    | true => simpa [Front, SendPc.loop, hm] using ht
    | false => simpa [Front, SendPc.loop, hm] using ht

theorem loop_ne_returned (outbox : List (Tagged Message)) (b : Bool) :
    SendPc.loop outbox ≠ .returned b := fun h => by
  have := SendPc.inTxn_loop outbox
  rw [h] at this
  exact Bool.noConfusion this

/-- The front message is written and popped. -/
theorem writing_pop {lim : Limits} {written t t' : MessageTable} {s : Calls}
    {outbox popped rest : List (Tagged Message)} {m : Tagged Message}
    (ho : outbox = popped ++ m :: rest)
    (ht : exec (writeSendingMessage lim) written popped = some t)
    (hw : writeSendingMessage lim t m = some t') (hout : s.conn.db.outgoing = t') :
    Writing lim written outbox { s with outbox := rest, send := .loop rest } := by
  refine ⟨iff_of_false (by simp [ho]) (loop_ne_returned rest false), popped ++ [m], t',
    by simpa using ho, ?_, front_loop hout⟩
  exact exec_trans ht (by rw [exec_cons, hw]; rfl)

theorem Writing.sendEffect {lim : Limits} {written : MessageTable} {outbox : List (Tagged Message)}
    {s s' : Calls} (h : Writing lim written outbox s) (hs : SendEffect lim s s') :
    Writing lim written outbox s' := by
  obtain ⟨h0, popped, t, ho, ht, hf⟩ := h
  have hne : s.send ≠ .returned false → outbox ≠ [] := fun hp he => hp (h0.mp he)
  unfold Front at hf
  cases hs with
  | begin hp ha =>
    simp only [hp] at hf
    exact ⟨iff_of_false (hne (by simp [hp])) (loop_ne_returned _ false), popped, t, ho, ht,
      front_loop hf⟩
  | nested hp ha =>
    simp only [hp] at hf
    exact ⟨iff_of_false (hne (by simp [hp])) (by simp), popped, t, ho, ht, hf⟩
  | @update hp m rest hm row hb hfit =>
    simp only [hp, hm, List.head?_cons, Option.mem_some_iff, forall_eq'] at hf
    obtain ⟨hout, hover⟩ := hf
    refine ⟨iff_of_false (hne (by simp [hp])) (by simp), popped, t, ho, ht, ?_⟩
    simp only [Front, hm, List.head?_cons, Option.mem_some_iff, forall_eq']
    exact ⟨hover, row, hb, by rwa [← hout], by rw [← hout]; rfl, by rw [← hout]; rfl⟩
  | @updated hp m rest hm hc =>
    simp only [hp, hm, List.head?_cons, Option.mem_some_iff, forall_eq'] at hf
    obtain ⟨hover, row, hb, hfit, hout, hch⟩ := hf
    have hne : t.matched (hasType row.type) ≠ 0 := hch ▸ hc
    have hw : writeSendingMessage lim t m = some (updateMessageStmt t m.serial row) := by
      rw [writeSendingMessage, hb, Option.bind_some, if_pos (hfit hne), if_pos ⟨hover, hne⟩]
    exact writing_pop (hm ▸ ho) ht hw hout
  | @unmatched hp m rest hm hc =>
    simp only [hp, hm, List.head?_cons, Option.mem_some_iff, forall_eq'] at hf
    obtain ⟨hover, row, hb, -, hout, hch⟩ := hf
    have h0' : t.matched (hasType row.type) = 0 := hch.symm.trans hc
    refine ⟨iff_of_false (hne (by simp [hp])) (by simp), popped, t, ho, ht, ?_⟩
    simp only [Front, hm, hb, List.head?_cons, Option.mem_some_iff, forall_eq']
    -- the `UPDATE` matched no row, so it left the table as it was
    exact ⟨hout.trans (Table.update_of_matched_eq_zero h0' _), fun _ => h0'⟩
  | @insert hp m rest hm row hb hfit =>
    simp only [hp, hm, hb, List.head?_cons, Option.mem_some_iff, forall_eq'] at hf
    obtain ⟨hout, h0'⟩ := hf
    have hw : writeSendingMessage lim t m = some (insertMessageStmt t m.serial row) := by
      rw [writeSendingMessage, hb, Option.bind_some, if_pos hfit,
        if_neg fun hn => hn.2 (h0' hn.1)]
    exact writing_pop (s := { s with conn := _ }) (hm ▸ ho) ht hw (by rw [← hout])
  | @tooBig hp m rest hm hb =>
    refine ⟨iff_of_false (hne (by rcases hp with hp | hp <;> simp [hp])) (by simp), popped, t, ho,
      ht, ?_⟩
    rcases hp with hp | hp <;> simp only [hp] at hf <;> exact hf.1
  | @commit hp conn hc =>
    simp only [hp] at hf
    refine ⟨iff_of_false (hne (by simp [hp])) (by simp), popped, t, ho, ht, ?_, hf.2⟩
    rw [Connection.commit_eq_ok hc]
    exact hf.1
  | notBegun hp hc =>
    simp only [hp] at hf
    exact ⟨iff_of_false (hne (by simp [hp])) (by simp), popped, t, ho, ht, hf.1⟩

/-- A `ReceiveMessages` call has scanned `t` from the inbox `inbox` on, then deleted what it
read. -/
def Reading (t : MessageTable) (inbox : List (Tagged Message)) (s : Calls) : Prop :=
  match s.receive with
  | .scan n => s.conn.db.incoming = t ∧ n ≤ t.lastId ∧
      s.inbox ++ (t.after n).map (fun r => readRow r.val) = (scan t inbox).1
  | .begin n | .delete n => s.conn.db.incoming = t ∧ 0 < n ∧ (s.inbox, n) = scan t inbox
  | .commit => (true, s.conn.db.incoming, s.inbox) = receiveMessages t inbox
  | .returned b => (b, s.conn.db.incoming, s.inbox) = receiveMessages t inbox
  | .failed _ => True

theorem Reading.receiveEffect {t : MessageTable} {inbox : List (Tagged Message)} {s s' : Calls}
    (h : Reading t inbox s) (hs : ReceiveEffect s s') : Reading t inbox s' := by
  unfold Reading at h
  cases hs with
  | @row n hp r hr =>
    simp only [hp] at h
    obtain ⟨hin, -, hscan⟩ := h
    rw [hin] at hr
    obtain ⟨hmem, hafter⟩ := Table.after_of_next hr
    refine ⟨hin, t.rowId_le_lastId hmem, ?_⟩
    rw [← hscan, hafter, List.map_cons, List.append_assoc, List.singleton_append]
  | @eof n hp hr =>
    simp only [hp] at h
    obtain ⟨hin, hle, hscan⟩ := h
    rw [hin] at hr
    have hn : n = t.lastId := Nat.le_antisymm hle (Table.next_eq_none_iff.mp hr)
    rw [Table.after_eq_nil hn.ge, List.map_nil, List.append_nil] at hscan
    have hscan' : (s.inbox, n) = scan t inbox := by rw [hscan, hn, scan_eq]
    by_cases h0 : 0 < n
    · simpa [Reading, h0] using ⟨hin, hscan'⟩
    · simp only [Reading, h0, if_false]
      rw [receiveMessages, ← hscan', if_neg h0, hin]
  | begin hp ha => simp only [hp] at h; exact h
  | nested hp ha => trivial
  | @delete n hp =>
    simp only [hp] at h
    obtain ⟨hin, h0, hscan⟩ := h
    simp only [Reading]
    rw [receiveMessages, ← hscan, if_pos h0]
    simp only [Connection.dml, hin]
  | commit hp hc =>
    simp only [hp] at h
    rw [Connection.commit_eq_ok hc]
    exact h
  | notBegun hp hc => trivial

/-! ## Serializability -/

/-- The thread's call is over. -/
def Finished (s : Calls) : Thread → Prop
  | .send => s.send.Finished
  | .receive => s.receive.Finished

/-- The thread runs alone until its call is over. -/
def RunsAlone (lim : Limits) (th : Thread) (s t : Calls) : Prop :=
  Reaches (solo lim th) s t ∧ t.Finished th

/-- The two calls run one after the other, in some order. -/
def RunsInTurn (lim : Limits) (s t : Calls) : Prop :=
  ∃ u, (RunsAlone lim .send s u ∧ RunsAlone lim .receive u t) ∨
    (RunsAlone lim .receive s u ∧ RunsAlone lim .send u t)

/-- The outcome `s` of an interleaving from `s₀` is that of two calls that do not disturb each
other. -/
structure Serializable (lim : Limits) (s₀ s : Calls) : Prop where
  /-- Neither call fails because of the other. -/
  send_fails : ∀ e, s.send = .failed e → ∃ t, RunsAlone lim .send s₀ t ∧ t.send = .failed e
  receive_fails : ∀ e, s.receive = .failed e →
    ∃ t, RunsAlone lim .receive s₀ t ∧ t.receive = .failed e
  /-- The final tables, outbox and inbox are those of a serial run. -/
  serial : ∃ t, RunsInTurn lim s₀ t ∧ s.conn.db = t.conn.db ∧
    s.conn.committed = t.conn.committed ∧ s.outbox = t.outbox ∧ s.inbox = t.inbox
  /-- Every message popped from the outbox has been written to the table. -/
  popped : ∃ popped, s₀.outbox = popped ++ s.outbox ∧
    exec (writeSendingMessage lim) s₀.conn.db.outgoing popped = some s.conn.db.outgoing

variable {lim : Limits} {changes : ℕ} {db : Tables} {outbox inbox : List (Tagged Message)}

theorem send_start_inTxn :
    (start db changes outbox inbox).send.inTxn = false := by
  simp only [start]; split_ifs <;> rfl

theorem writing_start :
    Writing lim db.outgoing outbox (start db changes outbox inbox) := by
  refine ⟨by simp [start], [], db.outgoing, rfl, rfl, ?_⟩
  simp only [Front, start]
  by_cases h0 : outbox = []
  · simp [h0]
  · simp [h0]

theorem reading_start : Reading db.incoming inbox (start db changes outbox inbox) :=
  ⟨rfl, Nat.zero_le _, by simp [scan_eq, start]⟩

/-- A `SendMessages` call that runs alone keeps to its part. -/
theorem writing_solo {t : Calls} (h : Reaches (solo lim .send) (start db changes outbox inbox) t) :
    Inv db.outgoing t ∧ t.receive.inTxn = false ∧ Writing lim db.outgoing outbox t := by
  obtain ⟨as, h⟩ := h
  refine exec_invariant
    (I := fun t => Inv db.outgoing t ∧ t.receive.inTxn = false ∧ Writing lim db.outgoing outbox t)
    ?_ h ⟨inv_start db changes outbox inbox, rfl, writing_start⟩
  rintro s a s' ⟨hi, hr, hw⟩ hs
  have he := sendStep_iff.mp hs
  exact ⟨hi.sendEffect (fun hp => hi.noTxn (by rw [hp]; rfl) hr) he,
    by rw [he.receiveAgrees.receive]; exact hr, hw.sendEffect he⟩

/-- A `ReceiveMessages` call that runs alone does not fail. -/
theorem inv_solo_receive {t : Calls}
    (h : Reaches (solo lim .receive) (start db changes outbox inbox) t) :
    Inv db.outgoing t := by
  obtain ⟨as, h⟩ := h
  refine (exec_invariant (I := fun t => Inv db.outgoing t ∧ t.send.inTxn = false) ?_ h
    ⟨inv_start db changes outbox inbox, send_start_inTxn⟩).1
  rintro s a s' ⟨hi, hr⟩ hs
  have he := receiveStep_iff.mp hs
  exact ⟨hi.receiveEffect (fun n hp => hi.noTxn hr (by rw [hp]; rfl)) he,
    by rw [(he.sendAgrees hi.receive_ne_delete).send]; exact hr⟩

/-- **The whole calls.** Where every `BEGIN` finds no transaction open, a `SendMessages` call that
returns has done what `sendMessages` does. -/
theorem sendMessages_of_returned {as : List Thread} {s : Calls} {b : Bool}
    (h : exec (step lim) (start db changes outbox inbox) as = some s)
    (hC : Along (step lim) BeginsInAutocommit (start db changes outbox inbox) as)
    (hb : s.send = .returned b) :
    sendMessages lim db.outgoing outbox = some (b, s.conn.db.outgoing, s.outbox) := by
  have hi := inv_start db changes outbox inbox
  obtain ⟨t, ht, -, -, hag, -⟩ := exists_solo_send h hC hi hi rfl (.refl _)
  obtain ⟨-, -, h0, popped, t', hp, hw, hf⟩ := writing_solo ht
  rw [hag.send, hb] at h0
  rw [Front, hag.send, hb, hag.outgoing, hag.outbox] at hf
  obtain ⟨rfl, ho⟩ := hf
  rw [hag.outbox, ho, List.append_nil] at hp
  subst hp
  unfold sendMessages
  cases b with
  | false =>
    have hnil : outbox = [] := h0.mpr rfl
    subst hnil
    rw [exec_nil] at hw
    rw [if_pos rfl, ho, Option.some.inj hw]
  | true =>
    have hne : outbox ≠ [] := fun he => by simpa using h0.mp he
    rw [if_neg hne, hw, ho]
    rfl

/-- **The whole calls.** A `ReceiveMessages` call that returns has done what `receiveMessages`
does, whatever the send thread does meanwhile. -/
theorem receiveMessages_of_returned {as : List Thread} {s : Calls} {b : Bool}
    (h : exec (step lim) (start db changes outbox inbox) as = some s)
    (hb : s.receive = .returned b) :
    (b, s.conn.db.incoming, s.inbox) = receiveMessages db.incoming inbox := by
  have hr : Reading db.incoming inbox s := by
    refine exec_invariant (I := Reading db.incoming inbox) ?_ h reading_start
    intro s th s' hr hs
    cases th with
    | send =>
      have hf := (sendStep_iff.mp hs).receiveAgrees
      rw [Reading, hf.receive, hf.incoming, hf.inbox]
      exact hr
    | receive => exact hr.receiveEffect (receiveStep_iff.mp hs)
  rw [Reading, hb] at hr
  exact hr

/-- A failed call stays failed. -/
theorem send_failed_of_reaches {s t : Calls} {e : Error} (h : Reaches (step lim) s t)
    (hs : s.send = .failed e) : t.send = .failed e := by
  obtain ⟨as, h⟩ := h
  refine exec_invariant (I := fun t : Calls => t.send = .failed e) ?_ h hs
  intro s th s' hs h
  cases th with
  | send =>
    rw [step, sendStep, hs] at h
    cases h
  | receive =>
    have hne : s.send = .changes → ∀ n, s.receive ≠ .delete n := fun hc => by simp [hs] at hc
    exact ((receiveStep_iff.mp h).sendAgrees hne).send.trans hs

theorem receive_failed_of_reaches {s t : Calls} {e : Error} (h : Reaches (step lim) s t)
    (hs : s.receive = .failed e) : t.receive = .failed e := by
  obtain ⟨as, h⟩ := h
  refine exec_invariant (I := fun t : Calls => t.receive = .failed e) ?_ h hs
  intro s th s' hs h
  cases th with
  | send => exact (sendStep_iff.mp h).receiveAgrees.receive.trans hs
  | receive =>
    rw [step, receiveStep, hs] at h
    cases h

theorem not_serializable_of_send_failed {s : Calls} (hs : s.send = .failed .nestedTransaction) :
    ¬ Serializable lim (start db changes outbox inbox) s := by
  intro h
  obtain ⟨t, ⟨ht, -⟩, he⟩ := h.send_fails _ hs
  exact absurd ((writing_solo ht).1.sendError _ he) (by simp)

theorem not_serializable_of_receive_failed {s : Calls} {e : Error} (hs : s.receive = .failed e) :
    ¬ Serializable lim (start db changes outbox inbox) s := by
  intro h
  obtain ⟨t, ⟨ht, -⟩, he⟩ := h.receive_fails _ hs
  exact (inv_solo_receive ht).receiveError _ he

/-- A `BEGIN` inside the other call's transaction makes its call fail, which alone does not. -/
theorem not_serializable_of_nested {s u v : Calls} {th : Thread} (hC : ¬ u.BeginsInAutocommit th)
    (hv : u.step lim th = some v) (hs : Reaches (step lim) v s) :
    ¬ Serializable lim (start db changes outbox inbox) s := by
  cases th with
  | send =>
    simp only [BeginsInAutocommit, Classical.not_imp] at hC
    obtain ⟨hp, ha⟩ := hC
    have he : v.send = .failed .nestedTransaction := by
      rw [step, sendStep_iff.mpr (.nested hp ha)] at hv
      rw [← Option.some.inj hv]
    exact not_serializable_of_send_failed (send_failed_of_reaches hs he)
  | receive =>
    simp only [BeginsInAutocommit, not_forall] at hC
    obtain ⟨n, hp, ha⟩ := hC
    have he : v.receive = .failed .nestedTransaction := by
      rw [step, receiveStep_iff.mpr (.nested hp ha)] at hv
      rw [← Option.some.inj hv]
    exact not_serializable_of_receive_failed (receive_failed_of_reaches hs he)

theorem inTxn_of_finished {pc : ReceivePc} (h : pc.Finished) : pc.inTxn = false := by
  cases pc with
  | returned b | failed e => rfl
  | scan n | begin n | delete n | commit => exact h.elim

/-- A call that is over has written nothing beyond the messages that it has popped. -/
theorem Front.outgoing_of_finished {s : Calls} {t : MessageTable} (h : s.Front lim t)
    (hs : s.send.Finished) : s.conn.db.outgoing = t := by
  unfold Front at h
  cases hp : s.send with
  | returned b => rw [hp] at h; exact h.1
  | failed e => rw [hp] at h; exact h
  | begin | update | changes | insert | commit => rw [hp] at hs; exact hs.elim

theorem db_eq_of_agrees {s t : Calls} (hs : SendAgrees s t) (hr : ReceiveAgrees s t) :
    t.conn.db = s.conn.db := by
  have h1 := hs.outgoing
  have h2 := hr.incoming
  cases hd : t.conn.db
  cases hd' : s.conn.db
  rw [hd, hd'] at h1 h2
  simp only [Tables.mk.injEq]
  exact ⟨h1, h2⟩

/-- The two calls leave the same committed tables as in turn. -/
theorem committed_eq {written : MessageTable} {s t : Calls} (hs : Inv written s)
    (ht : Inv written t) (hsend : t.send = s.send) (hr : s.receive.inTxn = false)
    (hrt : t.receive.inTxn = false) (hdb : t.conn.db = s.conn.db) :
    t.conn.committed = s.conn.committed := by
  unfold Connection.committed
  cases hp : s.send.inTxn with
  | true => rw [hs.sendTxn hp, ht.sendTxn (by rw [hsend, hp]), hdb]
  | false => rw [hs.noTxn hp hr, ht.noTxn (by rw [hsend, hp]) hrt, hdb]

/-- **The interleavings that are serial.** For every outbox, every content of the tables and every
interleaving of one `SendMessages` call with one `ReceiveMessages` call: they do not disturb each
other if and only if every `BEGIN` was run while no transaction was open on the connection. -/
theorem serializable_iff {as : List Thread} {s : Calls}
    (h : exec (step lim) (start db changes outbox inbox) as = some s)
    (hsend : s.Finished .send) (hreceive : s.Finished .receive) :
    Serializable lim (start db changes outbox inbox) s ↔
      Along (step lim) BeginsInAutocommit (start db changes outbox inbox) as := by
  constructor
  · intro hser
    by_contra hn
    obtain ⟨u, th, v, -, hC, hv, hs⟩ := exists_of_not_along h hn
    exact not_serializable_of_nested hC hv hs hser
  · intro hC
    have hi := inv_start db changes outbox inbox
    -- the receive thread alone, then the send thread alone
    obtain ⟨u, hu, -, hiu, hru, hsu⟩ := exists_solo_receive h hC hi hi send_start_inTxn (.refl _)
    have hfu : u.Finished .receive := by rw [Finished, hru.receive]; exact hreceive
    have hun : u.receive.inTxn = false := inTxn_of_finished hfu
    obtain ⟨t, ht, his, hit, hst, hrt⟩ := exists_solo_send h hC hi hiu hun hsu
    have hft : t.Finished .send := by rw [Finished, hst.send]; exact hsend
    have hdb : t.conn.db = s.conn.db := db_eq_of_agrees hst (hru.trans hrt)
    -- the send thread alone from the start
    obtain ⟨w, hw, -, -, hsw, -⟩ := exists_solo_send h hC hi hi rfl (.refl _)
    have hfw : w.send.Finished := by rw [hsw.send]; exact hsend
    refine ⟨fun e he => ?_, fun e he => absurd he (his.receiveError e), ?_, ?_⟩
    · exact ⟨w, ⟨hw, hfw⟩, hsw.send.trans he⟩
    · refine ⟨t, ⟨u, .inr ⟨⟨hu, hfu⟩, ht, hft⟩⟩, hdb.symm, ?_, hst.outbox.symm, ?_⟩
      · exact (committed_eq his hit hst.send (inTxn_of_finished hreceive)
          (by rw [hrt.receive]; exact hun) hdb).symm
      · exact (hru.trans hrt).inbox.symm
    · obtain ⟨-, -, -, popped, t', hp, he, hf⟩ := writing_solo hw
      rw [hsw.outbox] at hp
      refine ⟨popped, hp, ?_⟩
      rw [← hsw.outgoing, hf.outgoing_of_finished hfw]
      exact he

/-- A plain message to be sent and one row to be received. -/
def startOne : Calls :=
  start ⟨.empty, Table.empty.insert ⟨0, cStr [116], 1, [1], by decide⟩⟩ 0 [⟨0, .new [116] [2]⟩] []

/-- The state after both calls have returned. -/
def bothReturned : Calls where
  conn := ⟨⟨Table.empty.insert ⟨0, cStr [116], 1, [2], by decide⟩, .empty⟩, none, 1⟩
  outbox := []
  inbox := [⟨0, .new [116] [1]⟩]
  send := .returned true
  receive := .returned true

/-- `SendMessages` runs between the scan and the `BEGIN` of `ReceiveMessages`. -/
theorem serializable_iff_between :
    exec (step .default) startOne [.receive, .send, .receive, .send, .send, .receive,
      .receive, .receive] = some bothReturned ∧ Serializable .default startOne bothReturned := by
  have h : exec (step .default) startOne [.receive, .send, .receive, .send, .send, .receive,
      .receive, .receive] = some bothReturned := by decide +kernel
  exact ⟨h, (serializable_iff h trivial trivial).mpr (by decide +kernel)⟩

/-- **A failed receive.** `ReceiveMessages` has scanned its row when it runs `BEGIN` inside the
transaction of `SendMessages`. -/
theorem receive_begins_inside_send :
    ∃ s, exec (step .default) startOne [.send, .receive, .receive, .receive, .send, .send] =
        some s ∧ s.Finished .send ∧ s.Finished .receive ∧
      s.receive = .failed .nestedTransaction ∧ ¬ Serializable .default startOne s := by
  refine ⟨⟨⟨⟨Table.empty.insert ⟨0, cStr [116], 1, [2], by decide⟩,
    Table.empty.insert ⟨0, cStr [116], 1, [1], by decide⟩⟩, none, 1⟩, [], [⟨0, .new [116] [1]⟩],
    .returned true, .failed .nestedTransaction⟩, by decide +kernel, trivial, trivial, rfl, ?_⟩
  exact not_serializable_of_receive_failed rfl

end Calls

end Petunia
