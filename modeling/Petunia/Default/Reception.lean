import Petunia.Default.SharedConnection

set_option autoImplicit false

/-!
# `ReceiveMessages` while the sender commits

The calls of the receive thread, with a record of the rows that they push, and the commits of the
sending peer, in any order. A row is in the inbox before the `DELETE` that removes it is committed.

* `Reception`, `Reception.step`: the receiving endpoint and a step of it or of its peer;
* `Logged`: the inbox, message by message (`logged_reaches`);
* `Reading`: what a call has done, by its next SQLite call;
* **`reading_reaches`**: in every run without exceptions, every row is read once and no step fails.
-/

namespace Petunia

open CTypes Lts Sql

/-- The receiving endpoint, over a `ReceiveMessages` call and the retry after its exception. -/
structure Reception where
  calls : Calls
  /-- The rows pushed to the inbox. -/
  read : List (Row (Tagged MessageRow))
  /-- `nextRow` has finalized the statement of `m_select_messages_stmt`. -/
  finalized : Bool
  deriving DecidableEq

/-- The steps of the endpoint and its peer. -/
inductive ReceptionAct
  | call
  | peerCommits (outbox : List (Tagged Message))

/-- The row that the next call pushes. -/
def Calls.found (s : Calls) : List (Row (Tagged MessageRow)) :=
  match s.receive with
  | .scan n => (s.conn.db.incoming.next n).toList
  | .begin _ | .delete _ | .commit | .returned _ | .failed _ => []

namespace Reception

/-- Before the first SQLite call, on an endpoint with nothing to send. -/
def start (db : Tables) (changes : ℕ) (inbox : List (Tagged Message)) : Reception :=
  ⟨Calls.start db changes [] inbox, [], false⟩

/-- The connection. -/
abbrev conn (s : Reception) : Connection Tables := s.calls.conn

/-- The next call of `ReceiveMessages`. -/
abbrev receive (s : Reception) : ReceivePc := s.calls.receive

/-- The incoming table, as the connection sees it. -/
abbrev incoming (s : Reception) : MessageTable := s.calls.conn.db.incoming

/-- The peer has committed `t` as the incoming table. -/
def withIncoming (s : Reception) (t : MessageTable) : Reception :=
  { s with calls := { s.calls with conn := { s.conn with
      db := { s.conn.db with incoming := t }
      saved := s.conn.saved.map fun d => { d with incoming := t } } } }

/-- One step. A `DELETE` that is not committed keeps the peer from writing. Commits in the middle of
a scan are more than SQLite's read lock allows. -/
def step (lim : Limits) (s : Reception) : ReceptionAct → Option Reception
  | .call => s.calls.receiveStep.map fun calls => { s with calls, read := s.read ++ s.calls.found }
  | .peerCommits outbox =>
    if s.conn.committed = s.conn.db then
      (exec (writeSendingMessage lim) s.incoming outbox).map s.withIncoming
    else none

/-- The row ids pushed to the inbox. -/
def readIds (s : Reception) : List ℕ := s.read.map Row.rowId

/-! ## What the sender commits -/

/-- A written message leaves the ids in use, and a new one lies behind them. -/
theorem mem_rowIds_write {lim : Limits} {t t' : MessageTable} {m : Tagged Message}
    (h : writeSendingMessage lim t m = some t') :
    t.lastId ≤ t'.lastId ∧ ∀ i ≤ t.lastId, i ∈ t'.rowIds ↔ i ∈ t.rowIds := by
  obtain ⟨row, -, ⟨-, -, rfl⟩ | ⟨-, rfl⟩⟩ := writeSendingMessage_cases h
  · rw [updateMessageStmt, Table.lastId_update, Table.rowIds_update]
    exact ⟨le_rfl, fun i _ => Iff.rfl⟩
  · rw [insertMessageStmt, Table.lastId_insert]
    refine ⟨Nat.le_succ _, fun i hi => Table.mem_rowIds_insert.trans (or_iff_left ?_)⟩
    omega

theorem mem_rowIds_exec {lim : Limits} {t t' : MessageTable} {outbox : List (Tagged Message)}
    (h : exec (writeSendingMessage lim) t outbox = some t') :
    t.lastId ≤ t'.lastId ∧ ∀ i ≤ t.lastId, i ∈ t'.rowIds ↔ i ∈ t.rowIds := by
  refine exec_invariant
    (I := fun u => t.lastId ≤ u.lastId ∧ ∀ i ≤ t.lastId, i ∈ u.rowIds ↔ i ∈ t.rowIds) ?_ h
    ⟨le_rfl, fun i _ => Iff.rfl⟩
  rintro u m u' ⟨hle, hids⟩ hw
  obtain ⟨hle', hids'⟩ := mem_rowIds_write hw
  exact ⟨hle.trans hle', fun i hi => (hids' i (hi.trans hle)).trans (hids i hi)⟩

/-- A commit of the peer, as far as the receiving endpoint sees it. -/
theorem step_peerCommits {lim : Limits} {s s' : Reception} {outbox : List (Tagged Message)}
    (h : step lim s (.peerCommits outbox) = some s') :
    s.conn.committed = s.conn.db ∧ ∃ t, s' = s.withIncoming t ∧
      s.incoming.lastId ≤ t.lastId ∧
      ∀ i ≤ s.incoming.lastId, i ∈ t.rowIds ↔ i ∈ s.incoming.rowIds := by
  rw [step] at h
  split_ifs at h with hc
  obtain ⟨t, ht, he⟩ := Option.map_eq_some_iff.mp h
  exact ⟨hc, t, he.symm, mem_rowIds_exec ht⟩

/-! ## The inbox -/

/-- The inbox is `inbox` and what has been read in the rows that were pushed. -/
def Logged (inbox : List (Tagged Message)) (s : Reception) : Prop :=
  s.calls.inbox = inbox ++ s.read.map fun r => readRow r.val

theorem inbox_receiveEffect {s s' : Calls} (h : Calls.ReceiveEffect s s') :
    s'.inbox = s.inbox ++ s.found.map fun r => readRow r.val := by
  cases h with
  | row hp hr => simp [Calls.found, hp, hr]
  | eof hp hr => simp [Calls.found, hp, hr]
  | begin hp | nested hp | delete hp | commit hp | notBegun hp => simp [Calls.found, hp]

theorem logged_step {lim : Limits} {inbox : List (Tagged Message)} {s s' : Reception}
    {a : ReceptionAct} (h : Logged inbox s) (hs : step lim s a = some s') : Logged inbox s' := by
  cases a with
  | call =>
    obtain ⟨calls, hc, rfl⟩ := Option.map_eq_some_iff.mp hs
    rw [Logged, inbox_receiveEffect (Calls.receiveStep_iff.mp hc), h, List.map_append,
      List.append_assoc]
  | peerCommits outbox =>
    obtain ⟨-, t, rfl, -⟩ := step_peerCommits hs
    exact h

theorem logged_reaches {lim : Limits} {inbox : List (Tagged Message)} {s s' : Reception}
    (h : Logged inbox s) (hs : Reaches (step lim) s s') : Logged inbox s' := by
  obtain ⟨as, hs⟩ := hs
  exact exec_invariant (fun s a t => logged_step) hs h

/-! ## A call without exceptions -/

/-- The rows of `t` up to the id `n` have been pushed, each once; `ids` are the ids that were in use
when the call began. -/
structure ReadTo (ids : List ℕ) (t : MessageTable) (n : ℕ) (pushed : List ℕ) : Prop where
  nodup : pushed.Nodup
  le : n ≤ t.lastId
  mem : ∀ i, i ∈ pushed ↔ i ∈ t.rowIds ∧ i ≤ n
  last : 0 < n → n ∈ t.rowIds
  kept : ∀ i ∈ ids, i ∈ t.rowIds

/-- The scan has read to its end: the ids with which the call began are among those pushed. -/
structure ReadAll (ids : List ℕ) (t : MessageTable) (n : ℕ) (pushed : List ℕ) : Prop
    extends ReadTo ids t n pushed where
  pos : 0 < n
  all : ∀ i ∈ ids, i ≤ n

/-- What a call has done, by its next SQLite call. -/
def Reading (ids : List ℕ) (s : Reception) : Prop :=
  match s.receive with
  | .scan n => s.conn.saved = none ∧ ReadTo ids s.incoming n s.readIds
  | .begin n => s.conn.saved = none ∧ ReadAll ids s.incoming n s.readIds
  | .delete n => s.conn.saved = some s.conn.db ∧ ReadAll ids s.incoming n s.readIds
  | .commit => ∃ d n, s.conn.saved = some d ∧ ReadAll ids d.incoming n s.readIds ∧
      s.incoming = d.incoming.deleteUpTo n
  | .returned _ => s.readIds.Nodup ∧ ∀ i ∈ ids, i ∈ s.readIds
  | .failed _ => False

variable {lim : Limits} {n : ℕ} {ids pushed : List ℕ} {t t' : MessageTable}

/-- The sender commits behind what has been read. -/
theorem ReadTo.grow (h : ReadTo ids t n pushed) (hle : t.lastId ≤ t'.lastId)
    (hids : ∀ i ≤ t.lastId, i ∈ t'.rowIds ↔ i ∈ t.rowIds) : ReadTo ids t' n pushed where
  nodup := h.nodup
  le := h.le.trans hle
  mem i := by
    rw [h.mem i]
    exact and_congr_left fun hi => (hids i (hi.trans h.le)).symm
  last hn := (hids n h.le).mpr (h.last hn)
  kept i hi := (hids i (Table.le_lastId_of_mem_rowIds (h.kept i hi))).mpr (h.kept i hi)

theorem ReadAll.grow (h : ReadAll ids t n pushed) (hle : t.lastId ≤ t'.lastId)
    (hids : ∀ i ≤ t.lastId, i ∈ t'.rowIds ↔ i ∈ t.rowIds) : ReadAll ids t' n pushed :=
  ⟨h.toReadTo.grow hle hids, h.pos, h.all⟩

/-- The next row of the scan is pushed. -/
theorem ReadTo.push (h : ReadTo ids t n pushed) {r : Row (Tagged MessageRow)}
    (hr : t.next n = some r) : ReadTo ids t r.rowId (pushed ++ [r.rowId]) where
  nodup := by
    have hnot : r.rowId ∉ pushed := fun hmem => by
      have hlt := (Table.mem_after.mp ((Table.after_of_next hr).2 ▸ List.mem_cons_self)).2
      exact absurd ((h.mem _).mp hmem).2 (Nat.not_le.mpr hlt)
    exact List.nodup_append.mpr ⟨h.nodup, List.pairwise_singleton _ _, fun i hi j hj e =>
      hnot (List.mem_singleton.mp hj ▸ e ▸ hi)⟩
  le := t.rowId_le_lastId (Table.after_of_next hr).1
  mem i := by
    rw [List.mem_append, List.mem_singleton, h.mem i, Table.mem_rowIds_of_next hr i]
  last _ := List.mem_map_of_mem (Table.after_of_next hr).1
  kept := h.kept

/-- At the end of the scan. -/
theorem ReadTo.mem_of_eof (h : ReadTo ids t n pushed) (hr : t.next n = none) {i : ℕ}
    (hi : i ∈ t.rowIds) : i ≤ n ∧ i ∈ pushed := by
  have hle : i ≤ n := (Table.le_lastId_of_mem_rowIds hi).trans (Table.next_eq_none_iff.mp hr)
  exact ⟨hle, (h.mem i).mpr ⟨hi, hle⟩⟩

theorem ReadAll.mem_readIds (h : ReadAll ids t n pushed) {i : ℕ} (hi : i ∈ ids) : i ∈ pushed :=
  (h.mem i).mpr ⟨h.kept i hi, h.all i hi⟩

/-- A call that pushes no row leaves the record. -/
theorem read_of_found_nil {s : Reception} (h : s.calls.found = []) (calls : Calls) :
    { s with calls, read := s.read ++ s.calls.found } = { s with calls } := by
  rw [h, List.append_nil]

theorem reading_call {s s' : Reception} (h : Reading ids s) (hs : step lim s .call = some s') :
    Reading ids s' := by
  obtain ⟨calls, hc, rfl⟩ := Option.map_eq_some_iff.mp hs
  cases Calls.receiveStep_iff.mp hc with
  | @row n hp r hr =>
    rw [Reading, show s.receive = _ from hp] at h
    refine ⟨h.1, ?_⟩
    have hread : readIds { s with
        calls := { s.calls with
          inbox := s.calls.inbox ++ [readRow r.val], receive := .scan r.rowId }
        read := s.read ++ s.calls.found } = s.readIds ++ [r.rowId] := by
      simp [readIds, Calls.found, hp, hr]
    rw [hread]
    exact h.2.push hr
  | @eof n hp hr =>
    rw [Reading, show s.receive = _ from hp] at h
    rw [read_of_found_nil (by simp [Calls.found, hp, hr])]
    by_cases h0 : 0 < n
    · simp only [Reading, receive, if_pos h0]
      exact ⟨h.1, h.2, h0, fun i hi => (h.2.mem_of_eof hr (h.2.kept i hi)).1⟩
    · simp only [Reading, receive, if_neg h0]
      exact ⟨h.2.nodup, fun i hi => (h.2.mem_of_eof hr (h.2.kept i hi)).2⟩
  | begin hp ha =>
    rw [Reading, show s.receive = _ from hp] at h
    rw [read_of_found_nil (by simp [Calls.found, hp])]
    exact ⟨rfl, h.2⟩
  | nested hp ha =>
    rw [Reading, show s.receive = _ from hp] at h
    exact absurd h.1 ha
  | @delete n hp =>
    rw [Reading, show s.receive = _ from hp] at h
    rw [read_of_found_nil (by simp [Calls.found, hp])]
    exact ⟨s.conn.db, n, h.1, h.2, rfl⟩
  | commit hp hc =>
    rw [Reading, show s.receive = _ from hp] at h
    obtain ⟨d, n, -, hall, -⟩ := h
    rw [read_of_found_nil (by simp [Calls.found, hp])]
    exact ⟨hall.nodup, fun i hi => hall.mem_readIds hi⟩
  | notBegun hp he =>
    rw [Reading, show s.receive = _ from hp] at h
    obtain ⟨d, n, hd, -, -⟩ := h
    rw [Connection.commit_of_saved hd] at he
    cases he

/-- Between its `DELETE` and its `COMMIT` a call keeps the peer from writing. -/
theorem committed_ne_db {s : Reception} (h : Reading ids s) (hp : s.receive = .commit) :
    s.conn.committed ≠ s.conn.db := by
  rw [Reading, hp] at h
  obtain ⟨d, n, hd, hall, hin⟩ := h
  intro he
  rw [Connection.committed, hd, Option.getD_some] at he
  -- the last row that was read is not there any more
  have hn : n ∈ s.incoming.rowIds := by
    rw [incoming, ← he]
    exact hall.last hall.pos
  rw [hin] at hn
  exact absurd (Table.mem_rowIds_deleteUpTo.mp hn).2 (lt_irrefl n)

theorem reading_peerCommits {s s' : Reception} {outbox : List (Tagged Message)}
    (h : Reading ids s) (hs : step lim s (.peerCommits outbox) = some s') : Reading ids s' := by
  obtain ⟨hc, t, rfl, hle, hids⟩ := step_peerCommits hs
  have hne : s.receive ≠ .commit := fun hp => committed_ne_db h hp hc
  have hsaved : (s.withIncoming t).conn.saved =
      s.conn.saved.map fun d => { d with incoming := t } := rfl
  cases hp : s.receive with
  | scan n | begin n | delete n =>
    -- a transaction without a write sees the commit
    rw [Reading, hp] at h
    rw [Reading, show (s.withIncoming t).receive = _ from hp, hsaved, h.1]
    exact ⟨rfl, h.2.grow hle hids⟩
  | commit => exact absurd hp hne
  | returned b =>
    rw [Reading, hp] at h
    rw [Reading, show (s.withIncoming t).receive = _ from hp]
    exact h
  | failed e =>
    rw [Reading, hp] at h
    exact h.elim

/-- **What a step preserves**: a call that no exception leaves reads every row once. -/
theorem reading_step {s s' : Reception} {a : ReceptionAct} (h : Reading ids s)
    (hs : step lim s a = some s') : Reading ids s' := by
  cases a with
  | call => exact reading_call h hs
  | peerCommits outbox => exact reading_peerCommits h hs

theorem reading_reaches {s s' : Reception} (h : Reading ids s) (hs : Reaches (step lim) s s') :
    Reading ids s' := by
  obtain ⟨as, hs⟩ := hs
  exact exec_invariant (fun s a t => reading_step) hs h

/-- A call that has pushed nothing yet. -/
theorem reading_of_scan_zero {s : Reception} (hp : s.receive = .scan 0) (hs : s.conn.saved = none)
    (hr : s.readIds = []) : Reading s.incoming.rowIds s := by
  rw [Reading, hp, hr]
  refine ⟨hs, List.nodup_nil, Nat.zero_le _, fun i => ?_, fun h0 => absurd h0 (lt_irrefl 0),
    fun i hi => hi⟩
  refine iff_of_false List.not_mem_nil fun hi => ?_
  exact absurd (Table.pos_of_mem_rowIds hi.1) (Nat.not_lt.mpr hi.2)

theorem reading_start (db : Tables) (changes : ℕ) (inbox : List (Tagged Message)) :
    Reading db.incoming.rowIds (start db changes inbox) :=
  reading_of_scan_zero (s := start db changes inbox) rfl rfl rfl

end Reception

end Petunia
