import Petunia.Default.Fifo
import Petunia.Lib.Queues

set_option autoImplicit false

/-!
# Several receivers of one table

One endpoint sends plain messages, and any number of endpoints of the other role read the table.
Each remembers the last id of its own scan and later deletes up to it. The ids start again at `1` in
a table that another receiver has emptied, so a remembered id may by then cover rows that nobody has
read.

* `Receiver`, `Receivers`, `Receivers.step`: the sender, the table and its receivers; `deleted`
  keeps the rows that have been removed;
* `Receivers.Kept`: every removed row was read, and no message is lost;
* `Receivers.InUse`: no receiver remembers an id beyond those in use when rows are inserted;
* **`kept_of_inUse`**: what such runs keep (`deletes_unread_row`: a message that is deleted unread).
-/

namespace Petunia

open CTypes Lts Queues Sql

/-- A receiving endpoint: the `delete_reference_id` of a `ReceiveMessages` that has not run its
`DELETE` yet, and everything pushed to the inbox so far. -/
structure Receiver where
  reference : Option ℕ
  inbox : List (Tagged Message)
  deriving DecidableEq

/-- The sender, the table and the receivers by their order of construction. -/
structure Receivers where
  outbox : List (Tagged Message)
  table : MessageTable
  receivers : List Receiver
  pushed : List (Tagged Message)
  /-- The rows that have been removed from the table. -/
  deleted : List (Tagged MessageRow)
  deriving DecidableEq

/-- The steps of the endpoints. -/
inductive ReceiversAct
  | construct
  | push (message : Message)
  | sendMessages
  | scan (k : ℕ)
  | deleteOldMessages (k : ℕ)

/-- The messages pushed are not overwriting. -/
def ReceiversAct.plain : ReceiversAct → Prop
  | .push m => m.overwrite = false
  | _ => True

instance : DecidablePred ReceiversAct.plain
  | .push m => inferInstanceAs (Decidable (m.overwrite = false))
  | .construct | .sendMessages | .scan _ | .deleteOldMessages _ => isTrue trivial

namespace Receivers

/-- A freshly created channel with its sender. -/
def init : Receivers := ⟨[], .empty, [], [], []⟩

/-- One step; `none` when the step is not possible or a statement fails. -/
def step (lim : Limits) (s : Receivers) : ReceiversAct → Option Receivers
  | .construct => some { s with receivers := s.receivers ++ [⟨none, []⟩] }
  | .push m => some { s with
      outbox := s.outbox ++ [⟨s.pushed.length, m⟩]
      pushed := s.pushed ++ [⟨s.pushed.length, m⟩] }
  | .sendMessages => (Petunia.sendMessages lim s.table s.outbox).map fun r =>
      { s with table := r.2.1, outbox := r.2.2 }
  | .scan k => s.receivers[k]?.bind fun r =>
      let result := Petunia.scan s.table r.inbox
      let r' : Receiver := ⟨if 0 < result.2 then some result.2 else none, result.1⟩
      if r.reference.isSome then none else some { s with receivers := s.receivers.set k r' }
  | .deleteOldMessages k => s.receivers[k]?.bind fun r =>
      r.reference.map fun n => { s with
        table := Petunia.deleteOldMessages s.table n
        receivers := s.receivers.set k { r with reference := none }
        deleted := s.deleted ++ (s.table.rows.filter (·.rowId ≤ n)).map Row.val }

/-- The message has reached some receiver. -/
def Received (s : Receivers) (m : Tagged Message) : Prop := ∃ r ∈ s.receivers, m ∈ r.inbox

instance (s : Receivers) : DecidablePred s.Received := fun m =>
  inferInstanceAs (Decidable (∃ r ∈ s.receivers, m ∈ r.inbox))

/-- **Nothing is removed unread**: every removed row was pushed to an inbox, and every message sent
is in a row or in an inbox. -/
structure Kept (lim : Limits) (s : Receivers) : Prop where
  deleted : ∀ v ∈ s.deleted, s.Received (readRow v)
  sent : ∀ m ∈ s.pushed, m ∈ s.outbox ∨ ∃ x, Delivered lim m x ∧
    ((∃ r ∈ s.table.rows, readRow r.val = x) ∨ s.Received x)

/-- When rows are inserted, the ids that the receivers remember are in use. -/
def InUse (s : Receivers) : ReceiversAct → Prop
  | .sendMessages => s.outbox ≠ [] → ∀ r ∈ s.receivers, ∀ n ∈ r.reference, n ≤ s.table.lastId
  | _ => True

instance (s : Receivers) : DecidablePred s.InUse
  | .sendMessages => inferInstanceAs (Decidable (_ → _))
  | .construct | .push _ | .scan _ | .deleteOldMessages _ => isTrue trivial

/-! ## One transaction -/

/-- **A batch of plain messages** inserts a row for each, behind all rows. -/
theorem rows_exec_plain {lim : Limits} {ms : List (Tagged Message)} {t t' : MessageTable}
    (hms : ∀ m ∈ ms, m.val.overwrite = false) (h : exec (writeSendingMessage lim) t ms = some t') :
    ∃ rows, t'.rows = t.rows ++ rows ∧ (∀ r ∈ rows, t.lastId < r.rowId) ∧
      ∀ m ∈ ms, ∃ r ∈ rows, Delivered lim m (readRow r.val) := by
  induction ms generalizing t with
  | nil =>
    cases h
    exact ⟨[], by simp, by simp, by simp⟩
  | cons m ms ih =>
    obtain ⟨u, hu, h⟩ := exec_cons_eq_some.mp h
    obtain ⟨rows, hrows, hids, hdel⟩ := ih (fun x hx => hms x (List.mem_cons_of_mem m hx)) h
    obtain ⟨row, hrow, ⟨ho, -⟩ | ⟨-, rfl⟩⟩ := writeSendingMessage_cases hu
    · rw [hms m List.mem_cons_self] at ho
      cases ho
    · refine ⟨⟨t.lastId + 1, ⟨m.serial, row⟩⟩ :: rows, ?_, ?_, ?_⟩
      · rw [hrows, insertMessageStmt, Table.rows_insert, List.append_assoc, List.singleton_append]
      · rw [List.forall_mem_cons]
        refine ⟨Nat.lt_succ_self _, fun r hr => ?_⟩
        have := hids r hr
        rw [insertMessageStmt, Table.lastId_insert] at this
        omega
      · rw [List.forall_mem_cons]
        refine ⟨⟨_, List.mem_cons_self, rfl, row, hrow, rfl⟩, fun x hx => ?_⟩
        obtain ⟨r, hr, hd⟩ := hdel x hx
        exact ⟨r, List.mem_cons_of_mem _ hr, hd⟩

/-! ## The invariant -/

/-- What a receiver remembers covers only rows that it has read. -/
structure Inv (lim : Limits) (s : Receivers) : Prop extends Kept lim s where
  plain : ∀ m ∈ s.outbox, m.val.overwrite = false
  read : ∀ r ∈ s.receivers, ∀ n ∈ r.reference, ∀ row ∈ s.table.rows, row.rowId ≤ n →
    readRow row.val ∈ r.inbox

theorem inv_init (lim : Limits) : init.Inv lim where
  deleted v hv := by cases hv
  sent m hm := by cases hm
  plain m hm := by cases hm
  read r hr := by cases hr

theorem inv_push {lim : Limits} {s : Receivers} (hs : s.Inv lim) {m : Message}
    (hm : m.overwrite = false) : Inv lim { s with
      outbox := s.outbox ++ [⟨s.pushed.length, m⟩]
      pushed := s.pushed ++ [⟨s.pushed.length, m⟩] } where
  deleted := hs.deleted
  sent x hx := by
    rcases List.mem_append.mp hx with hx | hx
    · exact (hs.sent x hx).imp (List.mem_append_left _) id
    · exact .inl (List.mem_append_right _ hx)
  plain x hx := by
    rcases List.mem_append.mp hx with hx | hx
    · exact hs.plain x hx
    · rw [List.mem_singleton.mp hx]
      exact hm
  read := hs.read

/-- A transaction whose new ids no receiver remembers. -/
theorem inv_sendMessages {lim : Limits} {s : Receivers} (hs : s.Inv lim)
    (hc : s.InUse .sendMessages) {t : MessageTable}
    (ht : exec (writeSendingMessage lim) s.table s.outbox = some t) :
    Inv lim { s with table := t, outbox := [] } := by
  obtain ⟨rows, hrows, hids, hdel⟩ := rows_exec_plain hs.plain ht
  refine ⟨⟨hs.deleted, fun m hm => .inr ?_⟩, fun m hm => (by cases hm),
    fun r hr n hn row hrow hle => ?_⟩
  · rcases hs.sent m hm with ho | ⟨x, hx, ⟨r, hr, rfl⟩ | hrec⟩
    · obtain ⟨r, hr, hd⟩ := hdel m ho
      exact ⟨_, hd, .inl ⟨r, by rw [hrows]; exact List.mem_append_right _ hr, rfl⟩⟩
    · exact ⟨_, hx, .inl ⟨r, by rw [hrows]; exact List.mem_append_left _ hr, rfl⟩⟩
    · exact ⟨x, hx, .inr hrec⟩
  · rw [hrows] at hrow
    rcases List.mem_append.mp hrow with hrow | hrow
    · exact hs.read r hr n hn row hrow hle
    · -- a row was inserted, so the remembered id is in use and lies below it
      have hne : s.outbox ≠ [] := by
        intro he
        rw [he] at ht
        cases ht
        have hl := congrArg List.length hrows
        rw [List.length_append] at hl
        have := List.length_pos_of_mem hrow
        omega
      have := hc hne r hr n hn
      have := hids row hrow
      omega

/-- A receiver reads every row. -/
theorem inv_scan {lim : Limits} {s : Receivers} (hs : s.Inv lim) {k : ℕ} {r r' : Receiver}
    (hk : s.receivers[k]? = some r)
    (hr' : r'.inbox = r.inbox ++ s.table.rows.map fun row => readRow row.val) :
    Inv lim { s with receivers := s.receivers.set k r' } := by
  have hmono : ∀ x, s.Received x → ∃ y ∈ s.receivers.set k r', x ∈ y.inbox := fun x =>
    exists_mem_set hk fun hx => by rw [hr']; exact List.mem_append_left _ hx
  refine ⟨⟨fun v hv => hmono _ (hs.deleted v hv), fun m hm => ?_⟩, hs.plain,
    fun y hy n hn row hrow hle => ?_⟩
  · refine (hs.sent m hm).imp id ?_
    rintro ⟨x, hx, hrow | hrec⟩
    · exact ⟨x, hx, .inl hrow⟩
    · exact ⟨x, hx, .inr (hmono x hrec)⟩
  · rcases List.mem_or_eq_of_mem_set hy with hy | rfl
    · exact hs.read y hy n hn row hrow hle
    · rw [hr']
      exact List.mem_append_right _ (List.mem_map_of_mem hrow)

/-- A receiver deletes what it has read. -/
theorem inv_deleteOldMessages {lim : Limits} {s : Receivers} (hs : s.Inv lim) {k n : ℕ} {r : Receiver}
    (hk : s.receivers[k]? = some r) (hn : r.reference = some n) : Inv lim { s with
      table := Petunia.deleteOldMessages s.table n
      receivers := s.receivers.set k { r with reference := none }
      deleted := s.deleted ++ (s.table.rows.filter (·.rowId ≤ n)).map Row.val } := by
  have hmono : ∀ x, s.Received x → ∃ y ∈ s.receivers.set k { r with reference := none },
      x ∈ y.inbox := fun x => exists_mem_set hk fun hx => hx
  have hread : ∀ row ∈ s.table.rows, row.rowId ≤ n → s.Received (readRow row.val) :=
    fun row hrow hle => ⟨r, List.mem_of_getElem? hk,
      hs.read r (List.mem_of_getElem? hk) n hn row hrow hle⟩
  refine ⟨⟨fun v hv => hmono _ ?_, fun m hm => ?_⟩, hs.plain, fun y hy i hi row hrow hle => ?_⟩
  · rcases List.mem_append.mp hv with hv | hv
    · exact hs.deleted v hv
    · obtain ⟨row, hrow, rfl⟩ := List.mem_map.mp hv
      rw [List.mem_filter, decide_eq_true_eq] at hrow
      exact hread row hrow.1 hrow.2
  · refine (hs.sent m hm).imp id ?_
    rintro ⟨x, hx, ⟨row, hrow, rfl⟩ | hrec⟩
    · refine ⟨_, hx, ?_⟩
      by_cases hle : row.rowId ≤ n
      · exact .inr (hmono _ (hread row hrow hle))
      · exact .inl ⟨row, Table.mem_after.mpr ⟨hrow, by omega⟩, rfl⟩
    · exact ⟨x, hx, .inr (hmono x hrec)⟩
  · have hrow' : row ∈ s.table.rows := (Table.mem_after.mp hrow).1
    rcases List.mem_or_eq_of_mem_set hy with hy | rfl
    · exact hs.read y hy i hi row hrow' hle
    · cases hi

/-- **One step.** -/
theorem inv_step {lim : Limits} {s s' : Receivers} {a : ReceiversAct} (hs : s.Inv lim)
    (ha : a.plain ∧ s.InUse a) (h : step lim s a = some s') : s'.Inv lim := by
  cases a with
  | construct =>
    cases h
    have hmono : ∀ x, s.Received x → ∃ y ∈ s.receivers ++ [⟨none, []⟩], x ∈ y.inbox :=
      fun x ⟨y, hy, hx⟩ => ⟨y, List.mem_append_left _ hy, hx⟩
    refine ⟨⟨fun v hv => hmono _ (hs.deleted v hv), fun m hm => ?_⟩, hs.plain,
      fun y hy n hn row hrow hle => ?_⟩
    · exact (hs.sent m hm).imp id fun ⟨x, hx, h⟩ => ⟨x, hx, h.imp id (hmono x)⟩
    · rcases List.mem_append.mp hy with hy | hy
      · exact hs.read y hy n hn row hrow hle
      · rw [List.mem_singleton.mp hy] at hn
        cases hn
  | push m =>
    cases h
    exact inv_push hs ha.1
  | sendMessages =>
    obtain ⟨r, hr, rfl⟩ := Option.map_eq_some_iff.mp h
    obtain ⟨ht, ho⟩ := exec_of_sendMessages hr
    rw [ho]
    exact inv_sendMessages hs ha.2 ht
  | scan k =>
    obtain ⟨r, hk, h⟩ := Option.bind_eq_some_iff.mp h
    cases hr : r.reference with
    | some n => simp [hr] at h
    | none =>
      simp only [hr, scan_eq] at h
      rw [← Option.some.inj h]
      exact inv_scan hs hk rfl
  | deleteOldMessages k =>
    obtain ⟨r, hk, h⟩ := Option.bind_eq_some_iff.mp h
    obtain ⟨n, hn, rfl⟩ := Option.map_eq_some_iff.mp h
    exact inv_deleteOldMessages hs hk hn

/-- **What several receivers delete.** For any number of receivers and every interleaving of
constructions, plain messages, committed transactions, scans and `DELETE`s: if no transaction
inserts rows while a receiver remembers an id beyond those in use, every removed row was pushed to
some inbox, and no message is lost. -/
theorem kept_of_inUse {lim : Limits} {s : Receivers} {as : List ReceiversAct}
    (h : exec (step lim) init as = some s) (hp : ∀ a ∈ as, a.plain)
    (hc : Along (step lim) InUse init as) : s.Kept lim :=
  (exec_invariant_along (I := Inv lim) (fun _ _ _ => inv_step) h
    ((along_of_forall fun a ha _ => hp a ha).and hc) (inv_init lim)).toKept

/-- Two receivers, the second of which deletes before the next message is sent. -/
theorem kept_of_inUse_two : ∃ s, exec (step .default) init [.construct, .construct,
      .push (.new [116] [1]), .sendMessages, .scan 0, .scan 1, .deleteOldMessages 0,
      .deleteOldMessages 1, .push (.new [116] [2]), .sendMessages, .scan 1] = some s ∧
    s.Kept .default := by
  have key : ∀ s, exec (step .default) init [.construct, .construct, .push (.new [116] [1]),
      .sendMessages, .scan 0, .scan 1, .deleteOldMessages 0, .deleteOldMessages 1,
      .push (.new [116] [2]), .sendMessages, .scan 1] = some s → s.Kept .default := fun s h =>
    kept_of_inUse h (by decide) (by decide +kernel)
  obtain ⟨s, hs⟩ := Option.isSome_iff_exists.mp (by decide +kernel : (exec (step .default) init
    [.construct, .construct, .push (.new [116] [1]), .sendMessages, .scan 0, .scan 1,
      .deleteOldMessages 0, .deleteOldMessages 1, .push (.new [116] [2]), .sendMessages,
      .scan 1]).isSome)
  exact ⟨s, hs, key s hs⟩

/-- **A message deleted unread.** Both receivers read the first message and one deletes it; the
second message gets its id, and the other receiver's `DELETE` removes it. -/
theorem deletes_unread_row : ∃ s, exec (step .default) init [.construct, .construct,
      .push (.new [116] [1]), .sendMessages, .scan 0, .scan 1, .deleteOldMessages 0,
      .push (.new [116] [2]), .sendMessages, .deleteOldMessages 1] = some s ∧
    ∃ v ∈ s.deleted, ¬ s.Received (readRow v) := by
  obtain ⟨s, hs, h⟩ : ∃ s ∈ exec (step .default) init [.construct, .construct,
      .push (.new [116] [1]), .sendMessages, .scan 0, .scan 1, .deleteOldMessages 0,
      .push (.new [116] [2]), .sendMessages, .deleteOldMessages 1],
    ∃ v ∈ s.deleted, ¬ s.Received (readRow v) := by decide +kernel
  exact ⟨s, hs, h⟩

end Receivers

end Petunia
