import Petunia.Default.Medium
import Petunia.Lib.Connection

set_option autoImplicit false

/-!
# Two calls on the connection of one endpoint

The send thread runs `SendMessages` under `m_send_lock`, the receive thread `ReceiveMessages` under
`m_receive_lock`, and both use `m_ipc_database`. A step is one SQLite call of one thread together
with the thread's own work up to its next call. The `sqlite3_changes` that `execDML` runs after a
`BEGIN`, an `INSERT`, a `DELETE` or a `COMMIT` has no effect, as its result is dropped; the one
after an `UPDATE` decides whether the message is inserted.

* `Calls`, `Calls.step`: the state of the two calls and a step of one of them;
* `Calls.start`: both calls before their first SQLite call;
* `Calls.BeginsInAutocommit`: a thread that runs `BEGIN` finds no transaction open;
* **`Calls.sendStep_iff`**, **`Calls.receiveStep_iff`**: what one call of a thread can do.
-/

namespace Petunia

open CTypes Lts Sql

/-- The table that the endpoint writes and the table that it reads. -/
structure Tables where
  outgoing : MessageTable
  incoming : MessageTable
  deriving DecidableEq

/-- The next SQLite call of `SendMessages`, or its outcome. -/
inductive SendPc
  | begin
  | update
  | changes
  | insert
  | commit
  | returned (sent : Bool)
  | failed (error : Error)
  deriving DecidableEq

/-- The next SQLite call of `ReceiveMessages` and its `delete_reference_id`, or its outcome. -/
inductive ReceivePc
  | scan (deleteReferenceId : ℕ)
  | begin (deleteReferenceId : ℕ)
  | delete (deleteReferenceId : ℕ)
  | commit
  | returned (received : Bool)
  | failed (error : Error)
  deriving DecidableEq

/-- The two threads of an endpoint. -/
inductive Thread
  | send
  | receive
  deriving DecidableEq

/-- One `SendMessages` call and one `ReceiveMessages` call on a connection. -/
structure Calls where
  conn : Connection Tables
  outbox : List (Tagged Message)
  inbox : List (Tagged Message)
  send : SendPc
  receive : ReceivePc
  deriving DecidableEq

/-- The loop of `SendMessages`: the first call for the front message, `COMMIT` after the last. -/
def SendPc.loop : List (Tagged Message) → SendPc
  | [] => .commit
  | m :: _ => if m.val.getOverwriteMode then .update else .insert

/-- The call has begun its transaction and not committed it; a value or a row above the length limit
leaves it open. -/
def SendPc.inTxn : SendPc → Bool
  | .update | .changes | .insert | .commit | .failed .tooBig => true
  | _ => false

/-- The call has begun its transaction and not committed it. -/
def ReceivePc.inTxn : ReceivePc → Bool
  | .delete _ | .commit => true
  | _ => false

/-- The call is over. -/
def SendPc.Finished : SendPc → Prop
  | .returned _ | .failed _ => True
  | _ => False

/-- The call is over. -/
def ReceivePc.Finished : ReceivePc → Prop
  | .returned _ | .failed _ => True
  | _ => False

namespace Calls

/-- Both calls before their first SQLite call; an empty outbox makes none. -/
def start (db : Tables) (changes : ℕ) (outbox inbox : List (Tagged Message)) : Calls where
  conn := ⟨db, none, changes⟩
  outbox := outbox
  inbox := inbox
  send := if outbox = [] then .returned false else .begin
  receive := .scan 0

/-- A statement of the send thread that leaves the table `t` and changes `n` rows. -/
def writeOutgoing (s : Calls) (t : MessageTable) (n : ℕ) : Connection Tables :=
  s.conn.dml { s.conn.db with outgoing := t } n

/-- One call of `SendMessages`. -/
def sendStep (lim : Limits) (s : Calls) : Option Calls :=
  match s.send, s.outbox with
  | .begin, outbox =>
    match s.conn.begin with
    | .ok conn => some { s with conn, send := .loop outbox }
    | .error e => some { s with send := .failed e }
  | .update, m :: _ =>
    match bindMessage lim m.val with
    | some row =>
      if s.conn.db.outgoing.matched (hasType row.type) ≠ 0 → row.Fits lim then some { s with
        conn := s.writeOutgoing (updateMessageStmt s.conn.db.outgoing m.serial row)
          (s.conn.db.outgoing.matched (hasType row.type))
        send := .changes }
      else some { s with send := .failed .tooBig }
    | none => some { s with send := .failed .tooBig }
  | .changes, _ :: outbox =>
    if s.conn.changes ≠ 0 then some { s with outbox, send := .loop outbox }
    else some { s with send := .insert }
  | .insert, m :: outbox =>
    match bindMessage lim m.val with
    | some row =>
      if row.Fits lim then some { s with
        conn := s.writeOutgoing (insertMessageStmt s.conn.db.outgoing m.serial row) 1
        outbox
        send := .loop outbox }
      else some { s with send := .failed .tooBig }
    | none => some { s with send := .failed .tooBig }
  | .commit, _ =>
    match s.conn.commit with
    | .ok conn => some { s with conn, send := .returned true }
    | .error e => some { s with send := .failed e }
  | _, _ => none

/-- One call of `ReceiveMessages`. -/
def receiveStep (s : Calls) : Option Calls :=
  match s.receive with
  | .scan n =>
    match s.conn.db.incoming.next n with
    | some r => some { s with inbox := s.inbox ++ [readRow r.val], receive := .scan r.rowId }
    | none => some { s with receive := if 0 < n then .begin n else .returned false }
  | .begin n =>
    match s.conn.begin with
    | .ok conn => some { s with conn, receive := .delete n }
    | .error e => some { s with receive := .failed e }
  | .delete n => some { s with
      conn := s.conn.dml { s.conn.db with incoming := deleteOldMessages s.conn.db.incoming n }
        (s.conn.db.incoming.matchedUpTo n)
      receive := .commit }
  | .commit =>
    match s.conn.commit with
    | .ok conn => some { s with conn, receive := .returned true }
    | .error e => some { s with receive := .failed e }
  | .returned _ | .failed _ => none

/-- One call of a thread. -/
def step (lim : Limits) (s : Calls) : Thread → Option Calls
  | .send => s.sendStep lim
  | .receive => s.receiveStep

/-- One call of a thread that runs alone. -/
def solo (lim : Limits) (th : Thread) (s : Calls) (_ : Unit) : Option Calls := s.step lim th

/-- A thread that runs `BEGIN` finds no transaction open on the connection. -/
def BeginsInAutocommit (s : Calls) : Thread → Prop
  | .send => s.send = .begin → s.conn.autocommit
  | .receive => ∀ n, s.receive = .begin n → s.conn.autocommit

instance (s : Calls) : ∀ th, Decidable (s.BeginsInAutocommit th)
  | .send => inferInstanceAs (Decidable (s.send = .begin → s.conn.autocommit))
  | .receive =>
    match h : s.receive with
    | .begin n => decidable_of_iff s.conn.autocommit ⟨fun ha _ _ => ha, fun hC => hC n h⟩
    | .scan _ | .delete _ | .commit | .returned _ | .failed _ =>
      isTrue fun _ hn => nomatch h.symm.trans hn

/-! ## The effect of one call -/

/-- The effects of one call of `SendMessages`. -/
inductive SendEffect (lim : Limits) (s : Calls) : Calls → Prop
  | begin (hp : s.send = .begin) (ha : s.conn.autocommit) :
    SendEffect lim s
      { s with conn := { s.conn with saved := some s.conn.db }, send := .loop s.outbox }
  | nested (hp : s.send = .begin) (ha : ¬ s.conn.autocommit) :
    SendEffect lim s { s with send := .failed .nestedTransaction }
  | update (hp : s.send = .update) {m : Tagged Message} {rest : List (Tagged Message)}
    (ho : s.outbox = m :: rest) {row : MessageRow} (hb : bindMessage lim m.val = some row)
    (hfit : s.conn.db.outgoing.matched (hasType row.type) ≠ 0 → row.Fits lim) :
    SendEffect lim s { s with
      conn := s.writeOutgoing (updateMessageStmt s.conn.db.outgoing m.serial row)
        (s.conn.db.outgoing.matched (hasType row.type))
      send := .changes }
  | updated (hp : s.send = .changes) {m : Tagged Message} {rest : List (Tagged Message)}
    (ho : s.outbox = m :: rest) (hc : s.conn.changes ≠ 0) :
    SendEffect lim s { s with outbox := rest, send := .loop rest }
  | unmatched (hp : s.send = .changes) {m : Tagged Message} {rest : List (Tagged Message)}
    (ho : s.outbox = m :: rest) (hc : s.conn.changes = 0) :
    SendEffect lim s { s with send := .insert }
  | insert (hp : s.send = .insert) {m : Tagged Message} {rest : List (Tagged Message)}
    (ho : s.outbox = m :: rest) {row : MessageRow} (hb : bindMessage lim m.val = some row)
    (hfit : row.Fits lim) :
    SendEffect lim s { s with
      conn := s.writeOutgoing (insertMessageStmt s.conn.db.outgoing m.serial row) 1
      outbox := rest
      send := .loop rest }
  | tooBig (hp : s.send = .update ∨ s.send = .insert) {m : Tagged Message}
    {rest : List (Tagged Message)} (ho : s.outbox = m :: rest)
    (hb : ∀ row, bindMessage lim m.val = some row →
      ¬ row.Fits lim ∧ (s.send = .update → s.conn.db.outgoing.matched (hasType row.type) ≠ 0)) :
    SendEffect lim s { s with send := .failed .tooBig }
  | commit (hp : s.send = .commit) {conn : Connection Tables} (hc : s.conn.commit = .ok conn) :
    SendEffect lim s { s with conn, send := .returned true }
  | notBegun (hp : s.send = .commit) {e : Error} (hc : s.conn.commit = .error e) :
    SendEffect lim s { s with send := .failed e }

/-- **The steps of the send thread are its effects.** -/
theorem sendStep_iff {lim : Limits} {s s' : Calls} : s.sendStep lim = some s' ↔ SendEffect lim s s' := by
  constructor
  · intro h
    unfold sendStep at h
    split at h
    · next hp =>
      by_cases ha : s.conn.autocommit
      · rw [Connection.begin_of_autocommit ha] at h
        exact Option.some.inj h ▸ .begin hp ha
      · rw [Connection.begin_of_not_autocommit ha] at h
        exact Option.some.inj h ▸ .nested hp ha
    · next m rest hp ho =>
      cases hb : bindMessage lim m.val with
      | none => rw [hb] at h; exact Option.some.inj h ▸ .tooBig (.inl hp) ho (by simp [hb])
      | some row =>
        simp only [hb] at h
        by_cases hfit : s.conn.db.outgoing.matched (hasType row.type) ≠ 0 → row.Fits lim
        · rw [if_pos hfit] at h
          exact Option.some.inj h ▸ .update hp ho hb hfit
        · rw [if_neg hfit] at h
          obtain ⟨hm, hf⟩ := Classical.not_imp.mp hfit
          refine Option.some.inj h ▸ .tooBig (.inl hp) ho fun row' hrow => ?_
          cases hb.symm.trans hrow
          exact ⟨hf, fun _ => hm⟩
    · next m rest hp ho =>
      by_cases hc : s.conn.changes = 0
      · rw [if_neg (not_not.mpr hc)] at h
        exact Option.some.inj h ▸ .unmatched hp ho hc
      · rw [if_pos hc] at h
        exact Option.some.inj h ▸ .updated hp ho hc
    · next m rest hp ho =>
      cases hb : bindMessage lim m.val with
      | none => rw [hb] at h; exact Option.some.inj h ▸ .tooBig (.inr hp) ho (by simp [hb])
      | some row =>
        simp only [hb] at h
        by_cases hfit : row.Fits lim
        · rw [if_pos hfit] at h
          exact Option.some.inj h ▸ .insert hp ho hb hfit
        · rw [if_neg hfit] at h
          refine Option.some.inj h ▸ .tooBig (.inr hp) ho fun row' hrow => ?_
          cases hb.symm.trans hrow
          exact ⟨hfit, fun hn => by rw [hp] at hn; cases hn⟩
    · next hp =>
      cases hc : s.conn.commit with
      | ok conn => rw [hc] at h; exact Option.some.inj h ▸ .commit hp hc
      | error e => rw [hc] at h; exact Option.some.inj h ▸ .notBegun hp hc
    · cases h
  · intro h
    cases h with
    | begin hp ha => simp [sendStep, hp, Connection.begin_of_autocommit ha]
    | nested hp ha => simp [sendStep, hp, Connection.begin_of_not_autocommit ha]
    | update hp ho hb hfit => simpa [sendStep, hp, ho, hb] using hfit
    | updated hp ho hc => simp [sendStep, hp, ho, hc]
    | unmatched hp ho hc => simp [sendStep, hp, ho, hc]
    | insert hp ho hb hfit => simp [sendStep, hp, ho, hb, hfit]
    | @tooBig hp m rest ho hb =>
      cases hrow : bindMessage lim m.val with
      | none => rcases hp with hp | hp <;> simp [sendStep, hp, ho, hrow]
      | some row =>
        obtain ⟨hfit, hm⟩ := hb row hrow
        rcases hp with hp | hp
        · simp [sendStep, hp, ho, hrow, hfit, hm hp]
        · simp [sendStep, hp, ho, hrow, hfit]
    | commit hp hc => simp [sendStep, hp, hc]
    | notBegun hp hc => simp [sendStep, hp, hc]

/-- The effects of one call of `ReceiveMessages`. -/
inductive ReceiveEffect (s : Calls) : Calls → Prop
  | row {n : ℕ} (hp : s.receive = .scan n) {r : Row (Tagged MessageRow)}
    (hr : s.conn.db.incoming.next n = some r) :
    ReceiveEffect s { s with inbox := s.inbox ++ [readRow r.val], receive := .scan r.rowId }
  | eof {n : ℕ} (hp : s.receive = .scan n) (hr : s.conn.db.incoming.next n = none) :
    ReceiveEffect s { s with receive := if 0 < n then .begin n else .returned false }
  | begin {n : ℕ} (hp : s.receive = .begin n) (ha : s.conn.autocommit) :
    ReceiveEffect s { s with conn := { s.conn with saved := some s.conn.db }, receive := .delete n }
  | nested {n : ℕ} (hp : s.receive = .begin n) (ha : ¬ s.conn.autocommit) :
    ReceiveEffect s { s with receive := .failed .nestedTransaction }
  | delete {n : ℕ} (hp : s.receive = .delete n) :
    ReceiveEffect s { s with
      conn := s.conn.dml { s.conn.db with incoming := deleteOldMessages s.conn.db.incoming n }
        (s.conn.db.incoming.matchedUpTo n)
      receive := .commit }
  | commit (hp : s.receive = .commit) {conn : Connection Tables} (hc : s.conn.commit = .ok conn) :
    ReceiveEffect s { s with conn, receive := .returned true }
  | notBegun (hp : s.receive = .commit) {e : Error} (hc : s.conn.commit = .error e) :
    ReceiveEffect s { s with receive := .failed e }

/-- **The steps of the receive thread are its effects.** -/
theorem receiveStep_iff {s s' : Calls} : s.receiveStep = some s' ↔ ReceiveEffect s s' := by
  constructor
  · intro h
    unfold receiveStep at h
    split at h
    · next n hp =>
      cases hr : s.conn.db.incoming.next n with
      | some r => rw [hr] at h; exact Option.some.inj h ▸ .row hp hr
      | none => rw [hr] at h; exact Option.some.inj h ▸ .eof hp hr
    · next n hp =>
      by_cases ha : s.conn.autocommit
      · rw [Connection.begin_of_autocommit ha] at h
        exact Option.some.inj h ▸ .begin hp ha
      · rw [Connection.begin_of_not_autocommit ha] at h
        exact Option.some.inj h ▸ .nested hp ha
    · next n hp => exact Option.some.inj h ▸ .delete hp
    · next hp =>
      cases hc : s.conn.commit with
      | ok conn => rw [hc] at h; exact Option.some.inj h ▸ .commit hp hc
      | error e => rw [hc] at h; exact Option.some.inj h ▸ .notBegun hp hc
    · cases h
    · cases h
  · intro h
    cases h with
    | row hp hr => simp [receiveStep, hp, hr]
    | eof hp hr => simp [receiveStep, hp, hr]
    | begin hp ha => simp [receiveStep, hp, Connection.begin_of_autocommit ha]
    | nested hp ha => simp [receiveStep, hp, Connection.begin_of_not_autocommit ha]
    | delete hp => simp [receiveStep, hp]
    | commit hp hc => simp [receiveStep, hp, hc]
    | notBegun hp hc => simp [receiveStep, hp, hc]

end Calls

end Petunia
