import Petunia.Default.Medium

set_option autoImplicit false

/-!
# One direction of the SQLite medium

The link from the one sending endpoint to the one receiving endpoint: the sender's outbox, the
table, and the receiver between its scan and its `DELETE`. Any interleaving of pushes, committed
`SendMessages` transactions, scans and `DELETE` transactions is a run of `Link.step`.

* `Link`, `LinkAct`, `Link.step`, `Link.init`;
* `Link.unread`: the rows that no completed scan has read;
* `after_writeSendingMessage`: what one written message does to the unread rows;
* `Link.Bounded`: a remembered `delete_reference_id` stays within the ids in use, so no row written
  after the scan falls under the `DELETE` (`bounded_step`).
-/

namespace Petunia

open CTypes Lts Sql

/-- The state of one direction. `inbox` holds everything pushed to the receiver's inbox so far,
`pushed` everything pushed on the sender's outbox so far. -/
structure Link where
  outbox : List (Tagged Message)
  table : MessageTable
  /-- The `delete_reference_id` of a `ReceiveMessages` that has not run its `DELETE` yet. -/
  reference : Option ℕ
  inbox : List (Tagged Message)
  pushed : List (Tagged Message)
  deriving DecidableEq

/-- The steps of the two endpoints. -/
inductive LinkAct
  | push (message : Message)
  /-- A caller that still holds a message of the outbox changes its flag. -/
  | setOverwriteMode (i : ℕ) (overwrite : Bool)
  | sendMessages
  | scan
  | deleteOldMessages

/-- `Petunia::SendMessage`. -/
def LinkAct.sendMessage (message : Message) : LinkAct := .push message

/-- `Petunia::UpdateMessage`. -/
def LinkAct.updateMessage (message : Message) : LinkAct :=
  .push (message.setOverwriteMode true)

namespace Link

/-- A freshly created channel. -/
def init : Link := ⟨[], .empty, none, [], []⟩

/-- One step; `none` when the step is not possible or a statement fails. -/
def step (lim : Limits) (s : Link) : LinkAct → Option Link
  | .push m => some { s with
      outbox := s.outbox ++ [⟨s.pushed.length, m⟩]
      pushed := s.pushed ++ [⟨s.pushed.length, m⟩] }
  | .setOverwriteMode i b => some { s with
      outbox := s.outbox.modify i fun m => { m with val := m.val.setOverwriteMode b } }
  | .sendMessages => (Petunia.sendMessages lim s.table s.outbox).map fun r =>
      { s with table := r.2.1, outbox := r.2.2 }
  | .scan => match s.reference with
    | none => some { s with
        inbox := (Petunia.scan s.table s.inbox).1
        reference := if 0 < (Petunia.scan s.table s.inbox).2
          then some (Petunia.scan s.table s.inbox).2 else none }
    | some _ => none
  | .deleteOldMessages => s.reference.map fun n =>
      { s with table := Petunia.deleteOldMessages s.table n, reference := none }

/-- The id up to which the rows have been read and wait to be deleted. -/
def readUpTo (s : Link) : ℕ := s.reference.getD 0

/-- The rows that no completed scan has read. -/
def unread (s : Link) : List (Tagged Message) :=
  (s.table.after s.readUpTo).map fun r => readRow r.val

/-- The remembered id is still in use. -/
def Bounded (s : Link) : Prop := s.readUpTo ≤ s.table.lastId

end Link

/-! ## One written message -/

/-- The receiver gets `x` for the message `m`. -/
def Delivered (lim : Limits) (m x : Tagged Message) : Prop :=
  x.serial = m.serial ∧ ∃ row, bindMessage lim m.val = some row ∧ x.val = createMessageFromRow row

/-- Replace an unread message by the update `x` if it has the type of `x`. -/
def overwriteBy (x y : Tagged Message) : Tagged Message :=
  if y.val.getType = x.val.getType then x else y

theorem readRow_set {row : MessageRow} {serial : ℕ} (r : Row (Tagged MessageRow)) :
    readRow (Table.Row.set (hasType row.type) (setBlob serial row) r).val =
      overwriteBy (readRow ⟨serial, row⟩) (readRow r.val) := by
  simp only [Table.Row.set, hasType, overwriteBy, readRow, getType_createMessageFromRow,
    decide_eq_true_eq]
  split_ifs with h
  · simp only [setBlob, createMessageFromRow_eq, h]
  · rfl

/-- **What `WriteSendingMessage` does to the unread rows**, as the receiver would read them: it
rewrites those of the message's type, or puts the message behind them. It rewrites only if the
table has a row of the type. -/
theorem after_writeSendingMessage {lim : Limits} {n : ℕ} {t t' : MessageTable} {m : Tagged Message}
    (hn : n ≤ t.lastId) (h : writeSendingMessage lim t m = some t') :
    n ≤ t'.lastId ∧ ∃ x, Delivered lim m x ∧ x.val.getType = m.val.getType ∧
      ((m.val.overwrite = true ∧ (∃ r ∈ t.rows, r.val.val.type = m.val.getType) ∧
          (t'.after n).map (fun r => readRow r.val) =
            ((t.after n).map fun r => readRow r.val).map (overwriteBy x)) ∨
        (t'.after n).map (fun r => readRow r.val) =
          ((t.after n).map fun r => readRow r.val) ++ [x]) := by
  obtain ⟨row, hrow, ⟨ho, hex, rfl⟩ | ⟨-, rfl⟩⟩ := writeSendingMessage_cases h
  · have ht := (bindMessage_eq_some hrow).1
    refine ⟨by simpa [updateMessageStmt] using hn, readRow ⟨m.serial, row⟩,
      ⟨rfl, row, hrow, rfl⟩, by rw [readRow, getType_createMessageFromRow, ht], .inl ⟨ho, ?_, ?_⟩⟩
    · rwa [ht] at hex
    · rw [updateMessageStmt, Table.after_update, List.map_map, List.map_map]
      exact List.map_congr_left fun r _ => readRow_set r
  · refine ⟨by simpa [insertMessageStmt] using Nat.le_succ_of_le hn, readRow ⟨m.serial, row⟩,
      ⟨rfl, row, hrow, rfl⟩, ?_, .inr ?_⟩
    · rw [readRow, getType_createMessageFromRow, (bindMessage_eq_some hrow).1]
    · rw [insertMessageStmt, Table.after_insert hn, List.map_append]
      rfl

theorem Delivered.view_eq_iff {lim : Limits} {m x : Tagged Message} (h : Delivered lim m x) :
    x.val.view = m.val.view ↔ m.val.getDataSize < 2 ^ 31 := by
  obtain ⟨-, row, hrow, hx⟩ := h
  rw [hx, view_createMessageFromRow hrow]

/-! ## Steps of the link -/

namespace Link

theorem step_push {lim : Limits} {s s' : Link} {m : Message} (h : step lim s (.push m) = some s') :
    s' = { s with
      outbox := s.outbox ++ [⟨s.pushed.length, m⟩]
      pushed := s.pushed ++ [⟨s.pushed.length, m⟩] } :=
  (Option.some.inj h).symm

theorem step_setOverwriteMode {lim : Limits} {s s' : Link} {i : ℕ} {b : Bool}
    (h : step lim s (.setOverwriteMode i b) = some s') :
    s' = { s with
      outbox := s.outbox.modify i fun m => { m with val := m.val.setOverwriteMode b } } :=
  (Option.some.inj h).symm

/-- What does not look at the flag does not change. -/
theorem map_outbox_setOverwriteMode {γ : Type*} {lim : Limits} {s s' : Link} {i : ℕ} {b : Bool}
    (h : step lim s (.setOverwriteMode i b) = some s') (f : Tagged Message → γ)
    (hf : ∀ m : Tagged Message, f { m with val := m.val.setOverwriteMode b } = f m) :
    s'.outbox.map f = s.outbox.map f := by
  rw [step_setOverwriteMode h]
  refine List.ext_getElem? fun j => ?_
  rw [List.getElem?_map, List.getElem?_map, List.getElem?_modify]
  cases s.outbox[j]? with
  | none => rfl
  | some m =>
    by_cases hij : i = j
    · simpa [hij] using hf m
    · simp [hij]

/-- A transaction, also that of an empty outbox, writes what the outbox holds. -/
theorem step_sendMessages_eq (lim : Limits) (s : Link) :
    step lim s .sendMessages = (exec (writeSendingMessage lim) s.table s.outbox).map fun t =>
      { s with table := t, outbox := [] } := by
  by_cases he : s.outbox = []
  · simp [step, Petunia.sendMessages, he]
  · simp only [step, Petunia.sendMessages, if_neg he, Option.map_map]
    rfl

theorem step_sendMessages {lim : Limits} {s s' : Link} (h : step lim s .sendMessages = some s') :
    ∃ t, exec (writeSendingMessage lim) s.table s.outbox = some t ∧
      s' = { s with table := t, outbox := [] } := by
  rw [step_sendMessages_eq] at h
  obtain ⟨t, ht, rfl⟩ := Option.map_eq_some_iff.mp h
  exact ⟨t, ht, rfl⟩

/-- A scan delivers the unread rows and leaves none unread. -/
theorem step_scan {lim : Limits} {s s' : Link} (h : step lim s .scan = some s') :
    s'.outbox = s.outbox ∧ s'.pushed = s.pushed ∧ s'.table = s.table ∧
      s'.inbox = s.inbox ++ s.unread ∧ s'.readUpTo = s'.table.lastId := by
  cases hr : s.reference with
  | some n => simp [step, hr] at h
  | none =>
    simp only [step, hr, Option.some.injEq, scan_eq] at h
    subst h
    refine ⟨rfl, rfl, rfl, ?_, ?_⟩
    · simp [unread, readUpTo, hr]
    · by_cases h0 : 0 < s.table.lastId
      · simp [readUpTo, h0]
      · simp only [readUpTo, h0, if_false, Option.getD_none]; omega

/-- A `DELETE` leaves the unread rows. -/
theorem step_deleteOldMessages {lim : Limits} {s s' : Link}
    (h : step lim s .deleteOldMessages = some s') :
    s'.outbox = s.outbox ∧ s'.pushed = s.pushed ∧ s'.inbox = s.inbox ∧
      s'.readUpTo = 0 ∧ s'.unread = s.unread := by
  obtain ⟨n, hn, rfl⟩ := Option.map_eq_some_iff.mp h
  refine ⟨rfl, rfl, rfl, rfl, ?_⟩
  simp [unread, readUpTo, hn, Petunia.deleteOldMessages, Table.rows_deleteUpTo]

theorem unread_of_scan {lim : Limits} {s s' : Link} (h : step lim s .scan = some s') :
    s'.unread = [] := by
  rw [unread, (step_scan h).2.2.2.2, Table.after_eq_nil le_rfl, List.map_nil]

/-- **The remembered id stays in use**: only the `DELETE` that forgets it removes rows. -/
theorem bounded_step {lim : Limits} {s s' : Link} {a : LinkAct} (hs : s.Bounded)
    (h : step lim s a = some s') : s'.Bounded := by
  cases a with
  | push m => rw [step_push h]; exact hs
  | setOverwriteMode i b => rw [step_setOverwriteMode h]; exact hs
  | sendMessages =>
    obtain ⟨t, ht, rfl⟩ := step_sendMessages h
    exact exec_invariant (I := fun t : MessageTable => s.readUpTo ≤ t.lastId)
      (fun t m t' hn hw => (after_writeSendingMessage hn hw).1) ht hs
  | scan => exact (step_scan h).2.2.2.2.le
  | deleteOldMessages =>
    rw [Bounded, (step_deleteOldMessages h).2.2.2.1]
    exact Nat.zero_le _

/-- A message that SQLite accepts, sent alone, is the only row of the table. -/
theorem exec_push_sendMessages {lim : Limits} {m : Message} {row : MessageRow}
    (hrow : bindMessage lim m = some row) (hfit : row.Fits lim) :
    exec (step lim) init [.push m, .sendMessages] =
      some ⟨[], insertMessageStmt .empty 0 row, none, [], [⟨0, m⟩]⟩ := by
  have hwrite : writeSendingMessage lim .empty ⟨0, m⟩ = some (insertMessageStmt .empty 0 row) := by
    simp [writeSendingMessage, hrow, hfit, Table.matched, Table.empty]
  simp [exec_cons, step, init, Petunia.sendMessages, hwrite]

end Link

end Petunia
