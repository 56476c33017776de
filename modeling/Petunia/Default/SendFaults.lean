import Petunia.Default.Serial

set_option autoImplicit false

/-!
# An exception in `SendMessages`

A SQLite call that throws has no effect, and the exception leaves `SendMessages` as it is: no
`ROLLBACK` is run, and the messages that the loop has popped stay popped.

* `SendPc.Throws`: the calls that can throw; the state in which one throws is the state it leaves;
* `resend`: the following `SendMessages` call;
* `AtomicOnError`: the outbox keeps what is not committed, no transaction is open, and the following
  call delivers the whole outbox;
* `reaches_returned_true`: what a call does in which nothing throws;
* **`atomicOnError_iff`**: a throw is atomic exactly when it is the `BEGIN` that throws.
-/

namespace Petunia

open CTypes Lts Sql

/-- The SQLite calls of `SendMessages` that can throw; the binds belong to `update` and `insert`. -/
def SendPc.Throws : SendPc → Prop
  | .begin | .update | .insert | .commit => True
  | .changes | .returned _ | .failed _ => False

namespace Calls

variable {lim : Limits} {changes : ℕ} {db : Tables} {outbox inbox : List (Tagged Message)}

/-- `SendMessages` is called again on the outbox and the connection that a call has left. -/
def resend (s : Calls) : Calls :=
  { s with send := if s.outbox = [] then .returned false else .begin }

/-- An exception in the state `s` of a `SendMessages` call, made for `outbox` on the tables `db`, is
atomic. -/
structure AtomicOnError (lim : Limits) (db : Tables) (outbox : List (Tagged Message)) (s : Calls) :
    Prop where
  /-- The outbox keeps, in order, what is not committed. -/
  kept : ∃ done, outbox = done ++ s.outbox ∧
    exec (writeSendingMessage lim) db.outgoing done = some s.conn.committed.outgoing
  /-- No transaction is open. -/
  closed : s.conn.autocommit
  /-- If nothing throws, the following call commits every message of the original outbox. -/
  delivers : ∀ t, exec (writeSendingMessage lim) db.outgoing outbox = some t →
    ∃ u, RunsAlone lim .send s.resend u ∧ u.send = .returned true ∧ u.outbox = [] ∧
      u.conn.committed.outgoing = t

/-! ## A call in which nothing throws -/

/-- The state after a message has been written. -/
def wrote (s : Calls) (t : MessageTable) (n : ℕ) (rest : List (Tagged Message)) : Calls :=
  { s with conn := s.writeOutgoing t n, outbox := rest, send := .loop rest }

theorem SendEffect.reaches {s t : Calls} (h : SendEffect lim s t) :
    Reaches (solo lim .send) s t :=
  .single (a := ()) (sendStep_iff.mpr h)

/-- The `INSERT` of a message. -/
theorem reaches_wrote_insert {s : Calls} {m : Tagged Message} {rest : List (Tagged Message)}
    {row : MessageRow} (hp : s.send = .insert) (ho : s.outbox = m :: rest)
    (hb : bindMessage lim m.val = some row) (hfit : row.Fits lim) :
    Reaches (solo lim .send) s
      (s.wrote (insertMessageStmt s.conn.db.outgoing m.serial row) 1 rest) :=
  SendEffect.reaches (.insert hp ho hb hfit)

/-- The state after the `UPDATE` for a message, with the next call. -/
def afterUpdate (s : Calls) (m : Tagged Message) (row : MessageRow) (send : SendPc) : Calls :=
  { s with
    conn := s.writeOutgoing (updateMessageStmt s.conn.db.outgoing m.serial row)
      (s.conn.db.outgoing.matched (hasType row.type))
    send }

/-- **One turn of the loop**, on the `UPDATE` path, the `INSERT` path or both. -/
theorem reaches_wrote {s : Calls} {m : Tagged Message} {rest : List (Tagged Message)}
    {t : MessageTable} (hp : s.send = .loop s.outbox) (ho : s.outbox = m :: rest)
    (hw : writeSendingMessage lim s.conn.db.outgoing m = some t) :
    ∃ n, Reaches (solo lim .send) s (s.wrote t n rest) := by
  obtain ⟨row, hb, ht⟩ := Option.bind_eq_some_iff.mp hw
  have hfit : row.Fits lim := by
    by_contra hn
    rw [if_neg hn] at ht
    cases ht
  rw [if_pos hfit] at ht
  rw [ho, SendPc.loop] at hp
  cases hm : m.val.getOverwriteMode with
  | false =>
    rw [hm, if_neg Bool.false_ne_true] at hp
    rw [hm, if_neg fun h => Bool.false_ne_true h.1] at ht
    exact ⟨1, Option.some.inj ht ▸ reaches_wrote_insert hp ho hb hfit⟩
  | true =>
    rw [hm, if_pos rfl] at hp
    have hupdate : Reaches (solo lim .send) s (s.afterUpdate m row .changes) :=
      SendEffect.reaches (.update hp ho hb fun _ => hfit)
    by_cases hn : s.conn.db.outgoing.matched (hasType row.type) = 0
    · -- the `UPDATE` matches no row and leaves the table
      rw [if_neg fun h => h.2 hn] at ht
      have hsame : (s.afterUpdate m row .insert).conn.db.outgoing = s.conn.db.outgoing :=
        Table.update_of_matched_eq_zero hn _
      have hunmatched : Reaches (solo lim .send) (s.afterUpdate m row .changes)
          (s.afterUpdate m row .insert) :=
        SendEffect.reaches (.unmatched rfl ho hn)
      have hinsert : Reaches (solo lim .send) (s.afterUpdate m row .insert) _ :=
        reaches_wrote_insert rfl ho hb hfit
      rw [hsame, Option.some.inj ht] at hinsert
      exact ⟨1, hupdate.trans (hunmatched.trans hinsert)⟩
    · rw [if_pos ⟨hm, hn⟩] at ht
      cases ht
      have hupdated : Reaches (solo lim .send) (s.afterUpdate m row .changes) _ :=
        SendEffect.reaches (.updated rfl ho hn)
      exact ⟨_, hupdate.trans hupdated⟩

/-- **The loop** writes the whole outbox. -/
theorem reaches_commit {s : Calls} {rest : List (Tagged Message)} {t : MessageTable}
    (hp : s.send = .loop s.outbox) (ho : s.outbox = rest)
    (hw : exec (writeSendingMessage lim) s.conn.db.outgoing rest = some t) :
    ∃ n, Reaches (solo lim .send) s (s.wrote t n []) := by
  induction rest generalizing s with
  | nil =>
    rw [exec_nil] at hw
    refine ⟨s.conn.changes, [], ?_⟩
    rw [exec_nil, ← Option.some.inj hw, wrote, ← ho, ← hp]
    rfl
  | cons m rest ih =>
    obtain ⟨u, hu, hw⟩ := exec_cons_eq_some.mp hw
    obtain ⟨n, hturn⟩ := reaches_wrote hp ho hu
    obtain ⟨k, hrest⟩ := ih (s := s.wrote u n rest) rfl rfl hw
    exact ⟨k, hturn.trans hrest⟩

/-- The state after the `BEGIN`. -/
def began (s : Calls) : Calls :=
  { s with conn := { s.conn with saved := some s.conn.db }, send := .loop s.outbox }

/-- **A call in which nothing throws**: it writes the whole outbox and commits. -/
theorem reaches_returned_true {s : Calls} {t : MessageTable} (hp : s.send = .begin)
    (ha : s.conn.autocommit)
    (hw : exec (writeSendingMessage lim) s.conn.db.outgoing s.outbox = some t) :
    ∃ u, Reaches (solo lim .send) s u ∧ u.send = .returned true ∧ u.outbox = [] ∧
      u.conn.committed.outgoing = t := by
  have hbegin : Reaches (solo lim .send) s s.began := SendEffect.reaches (.begin hp ha)
  obtain ⟨n, hloop⟩ : ∃ n, Reaches (solo lim .send) s.began (s.began.wrote t n []) :=
    reaches_commit rfl rfl hw
  have hcommit : Reaches (solo lim .send) (s.began.wrote t n []) _ :=
    SendEffect.reaches (.commit rfl (Connection.commit_of_saved rfl))
  exact ⟨_, hbegin.trans (hloop.trans hcommit), rfl, rfl, rfl⟩

/-! ## When a throw is atomic -/

theorem SendEffect.ne_begin {s t : Calls} (h : SendEffect lim s t) : t.send ≠ .begin := by
  have hloop : ∀ outbox, SendPc.loop outbox ≠ .begin :=
    fun outbox => SendPc.ne_begin_of_inTxn (SendPc.inTxn_loop outbox)
  cases h with
  | begin | updated | insert => exact hloop _
  | nested | update | unmatched | tooBig | commit | notBegun => simp

/-- Only the first call is a `BEGIN`. -/
theorem eq_start_of_begin {s : Calls}
    (h : Reaches (solo lim .send) (start db changes outbox inbox) s) (hp : s.send = .begin) :
    s = start db changes outbox inbox := by
  obtain ⟨as, h⟩ := h
  refine exec_invariant (I := fun s => s.send = .begin → s = start db changes outbox inbox)
    ?_ h (fun _ => rfl) hp
  intro s a t _ hs hp
  exact absurd hp (sendStep_iff.mp hs).ne_begin

/-- After the `BEGIN` every call that can throw runs inside the transaction. -/
theorem inTxn_of_throws {pc : SendPc} (h : pc.Throws) (hp : pc ≠ .begin) : pc.inTxn = true := by
  cases pc with
  | begin => exact absurd rfl hp
  | update | insert | commit => rfl
  | changes | returned _ | failed _ => exact h.elim

/-- A throw inside the transaction leaves it open, with nothing committed. -/
theorem open_of_inTxn {s : Calls}
    (h : Reaches (solo lim .send) (start db changes outbox inbox) s)
    (hp : s.send.inTxn = true) : ¬ s.conn.autocommit ∧ s.conn.committed.outgoing = db.outgoing := by
  have hsaved := (writing_solo h).1.sendTxn hp
  constructor
  · intro ha
    rw [Connection.autocommit, hsaved] at ha
    cases ha
  · rw [Connection.committed, hsaved]
    rfl

/-- **The following call, after a throw inside the transaction**, sends nothing: its `BEGIN` fails,
or it finds no message to send. -/
theorem resend_of_inTxn {s : Calls}
    (h : Reaches (solo lim .send) (start db changes outbox inbox) s) (hp : s.send.inTxn = true) :
    ∃ u, RunsAlone lim .send s.resend u ∧ u.conn.committed.outgoing = db.outgoing ∧
      u.send = if s.outbox = [] then .returned false else .failed .nestedTransaction := by
  obtain ⟨ha, hc⟩ := open_of_inTxn h hp
  by_cases ho : s.outbox = []
  · have hsend : s.resend.send = .returned false := if_pos ho
    refine ⟨s.resend, ⟨.refl _, ?_⟩, hc, by rw [if_pos ho, hsend]⟩
    rw [Finished, hsend]
    trivial
  · have hsend : s.resend.send = .begin := if_neg ho
    exact ⟨_, ⟨SendEffect.reaches (.nested hsend ha), trivial⟩, hc, by rw [if_neg ho]⟩

/-- **When an exception in `SendMessages` is atomic**: exactly when the `BEGIN` throws. -/
theorem atomicOnError_iff {s : Calls}
    (h : Reaches (solo lim .send) (start db changes outbox inbox) s) (hp : s.send.Throws) :
    AtomicOnError lim db outbox s ↔ s.send = .begin := by
  constructor
  · intro ha
    by_contra hb
    exact (open_of_inTxn h (inTxn_of_throws hp hb)).1 ha.closed
  · intro hb
    have hs := eq_start_of_begin h hb
    subst hs
    have hne : outbox ≠ [] := fun he => by simp [start, he] at hb
    have hresend : (start db changes outbox inbox).resend = start db changes outbox inbox := rfl
    refine ⟨⟨[], rfl, rfl⟩, rfl, fun t ht => ?_⟩
    obtain ⟨u, hu, hpu, hou, hcu⟩ := reaches_returned_true hb rfl ht
    exact ⟨u, ⟨hresend ▸ hu, by rw [Finished, hpu]; trivial⟩, hpu, hou, hcu⟩

/-- The `BEGIN` of a call with one message throws. -/
theorem atomicOnError_iff_begin :
    AtomicOnError .default ⟨.empty, .empty⟩ [⟨0, .new [97] [1]⟩]
      (start ⟨.empty, .empty⟩ 0 [⟨0, .new [97] [1]⟩] []) := by
  have hp : (start ⟨.empty, .empty⟩ 0 [⟨0, .new [97] [1]⟩] []).send = .begin := rfl
  exact (atomicOnError_iff (.refl _) (by rw [hp]; trivial)).mpr hp

/-- **The second `INSERT` throws**: the first message is in no outbox and in no table, and the
following call fails at its `BEGIN`. -/
theorem not_atomicOnError_insert :
    ∃ s, Reaches (solo .default .send)
        (start ⟨.empty, .empty⟩ 0 [⟨0, .new [97] [1]⟩, ⟨1, .new [97] [2]⟩] []) s ∧
      s.send = .insert ∧ s.outbox = [⟨1, .new [97] [2]⟩] ∧ s.conn.committed.outgoing = .empty ∧
      ¬ s.conn.autocommit ∧
      (∃ u, RunsAlone .default .send s.resend u ∧ u.send = .failed .nestedTransaction) ∧
      ¬ AtomicOnError .default ⟨.empty, .empty⟩ [⟨0, .new [97] [1]⟩, ⟨1, .new [97] [2]⟩] s := by
  obtain ⟨s, hs, hp, ho⟩ : ∃ s ∈ exec (solo .default .send)
      (start ⟨.empty, .empty⟩ 0 [⟨0, .new [97] [1]⟩, ⟨1, .new [97] [2]⟩] []) [(), ()],
      s.send = .insert ∧ s.outbox = [⟨1, .new [97] [2]⟩] := by decide +kernel
  have hreach : Reaches (solo .default .send)
      (start ⟨.empty, .empty⟩ 0 [⟨0, .new [97] [1]⟩, ⟨1, .new [97] [2]⟩] []) s := ⟨_, hs⟩
  have htxn : s.send.inTxn = true := by rw [hp]; rfl
  obtain ⟨ha, hc⟩ := open_of_inTxn hreach htxn
  obtain ⟨u, hu, -, hup⟩ := resend_of_inTxn hreach htxn
  rw [ho, if_neg (List.cons_ne_nil _ _)] at hup
  exact ⟨s, hreach, hp, ho, hc, ha, ⟨u, hu, hup⟩, fun h => ha h.closed⟩

end Calls

end Petunia
