import Petunia.Lib.Run
import Petunia.Lib.Table
import Petunia.Message

set_option autoImplicit false

/-!
# The SQLite medium

`IPCMediumDefault` keeps one table for each direction. `SendMessages` writes its outbox into the
table in one transaction; `ReceiveMessages` scans the table and later deletes, in a transaction of
its own, every row up to the last one it read.

Every message carries the serial number of the `SendMessage` or `UpdateMessage` call that pushed
it, and every row the number of the call that last wrote its blob; no function looks at them.

* `Limits`, `Limits.default`: the limits, and those of a library that is built without options;
* `MessageRow`, `bindMessage`, `createMessageFromRow`: the columns, what is bound for a message,
  and what is read back (`view_createMessageFromRow`);
* `writeSendingMessage`, `sendMessages`: the update-or-insert of one message and the loop over the
  outbox (`writeSendingMessage_cases`);
* `scan`, `deleteOldMessages`: the two halves of `ReceiveMessages`.

`lim` holds the limits of the SQLite library, and what it does where its documentation leaves that
open; `none` is an exception.
-/

namespace Petunia

open CTypes Lts Sql

/-- A value with the serial number of the call it stems from. -/
structure Tagged (α : Type*) where
  serial : ℕ
  val : α
  deriving DecidableEq

/-- A stored blob: SQLite keeps at most `2 ^ 31 - 1` bytes. -/
structure Blob where
  bytes : Bytes
  length_lt : bytes.length < 2 ^ 31
  deriving DecidableEq

/-- The columns of `to_client` and `to_server` besides `row_id`. -/
structure MessageRow where
  type : CString
  size : ℕ
  blobMessage : Blob
  deriving DecidableEq

/-- The table of one direction. -/
abbrev MessageTable := Table (Tagged MessageRow)

/-! ## Binding and reading the columns -/

/-- What the SQLite library leaves open. -/
structure Limits where
  /-- `SQLITE_LIMIT_LENGTH`, an `int`: the largest string, blob or row, in bytes. -/
  length : ℕ
  length_lt : length < 2 ^ 31
  /-- The size of a row by its `type`, `size` and `blob_message`. -/
  rowSize : CString → ℕ → Bytes → ℕ
  /-- What `sqlite3_bind_blob` takes of the data for a negative length, if it does not fail: its
  documentation calls this undefined. -/
  bindNegative : Bytes → ℤ → Option Bytes

namespace Limits

/-- The length of a varint below `2 ^ 35`. -/
def varintLength (n : ℕ) : ℕ :=
  if n < 2 ^ 7 then 1 else if n < 2 ^ 14 then 2 else if n < 2 ^ 21 then 3
  else if n < 2 ^ 28 then 4 else 5

/-- The length of an integer in a record. -/
def integerLength (n : ℕ) : ℕ :=
  if n ≤ 1 then 0 else if n < 2 ^ 7 then 1 else if n < 2 ^ 15 then 2 else if n < 2 ^ 23 then 3
  else if n < 2 ^ 31 then 4 else if n < 2 ^ 47 then 6 else 8

/-- The size of a record: a header with its own length and the type of each column (`row_id` is
stored as `NULL`), then the columns. -/
def recordSize (type : CString) (size : ℕ) (blobMessage : Bytes) : ℕ :=
  let header := 1 + varintLength (13 + 2 * type.bytes.length) + 1 +
    varintLength (12 + 2 * blobMessage.length) + 1
  header + type.bytes.length + integerLength size + blobMessage.length

/-- A library with a length limit, in which a negative length is an error. -/
def standard (length : ℕ) (length_lt : length < 2 ^ 31) : Limits :=
  ⟨length, length_lt, recordSize, fun _ _ => none⟩

/-- A library that is built without options. -/
def default : Limits := standard 1000000000 (by decide)

/-- A blob within the limit. -/
def blob (lim : Limits) (bytes : Bytes) : Option Blob :=
  if h : bytes.length ≤ lim.length then some ⟨bytes, h.trans_lt lim.length_lt⟩ else none

end Limits

/-- `bind(@type, const char *)`. -/
def bindText (lim : Limits) (s : CString) : Option CString :=
  if s.bytes.length ≤ lim.length then some s else none

/-- `bind(@blob_message, data, size)`: the 64-bit size is converted to `int`. -/
def bindBlob (lim : Limits) (data : Bytes) (size : ℕ) : Option Blob :=
  if 0 ≤ cInt size then
    if cInt size ≤ lim.length then lim.blob (data.take (cInt size).toNat) else none
  else (lim.bindNegative data (cInt size)).bind lim.blob

/-- The three binds that precede an `UPDATE` or an `INSERT`. -/
def bindMessage (lim : Limits) (m : Message) : Option MessageRow :=
  (bindText lim m.getType).bind fun type =>
    (bindBlob lim m.getData m.getDataSize).map fun blob => ⟨type, m.getDataSize, blob⟩

/-- `sqlite3_column_bytes`. -/
def Blob.columnBytes (b : Blob) : ℤ := cInt b.bytes.length

/-- `CreateMessageFromRow`: `getBlobField` overwrites the size read from the `size` column. -/
def createMessageFromRow (r : MessageRow) : Message :=
  Message.new r.type.bytes (r.blobMessage.bytes.take r.blobMessage.columnBytes.toNat)

/-- A row as the receiver pushes it. -/
def readRow (r : Tagged MessageRow) : Tagged Message := ⟨r.serial, createMessageFromRow r.val⟩

theorem createMessageFromRow_eq (r : MessageRow) :
    createMessageFromRow r = .new r.type.bytes r.blobMessage.bytes := by
  rw [createMessageFromRow, Blob.columnBytes, cInt_of_lt r.blobMessage.length_lt,
    Int.toNat_natCast, List.take_length]

theorem blob_eq_some {lim : Limits} {bytes : Bytes} {b : Blob} (h : lim.blob bytes = some b) :
    b.bytes = bytes := by
  unfold Limits.blob at h
  split_ifs at h
  cases h
  rfl

theorem bindBlob_eq_some {lim : Limits} {data : Bytes} {size : ℕ} {b : Blob}
    (h : bindBlob lim data size = some b) (h0 : 0 ≤ cInt size) :
    b.bytes = data.take (cInt size).toNat := by
  rw [bindBlob, if_pos h0] at h
  split_ifs at h
  exact blob_eq_some h

theorem bindMessage_eq_some {lim : Limits} {m : Message} {row : MessageRow}
    (h : bindMessage lim m = some row) : row.type = m.getType ∧ row.size = m.getDataSize ∧
      bindBlob lim m.getData m.getDataSize = some row.blobMessage := by
  obtain ⟨type, ht, hrow⟩ := Option.bind_eq_some_iff.mp h
  obtain ⟨blob, hb, rfl⟩ := Option.map_eq_some_iff.mp hrow
  have ht' : m.getType = type := by
    unfold bindText at ht; split_ifs at ht; exact Option.some.inj ht
  exact ⟨ht'.symm, rfl, hb⟩

/-- **The blob of a message** is its data exactly when it has fewer than `2 ^ 31` bytes, whatever is
bound for a negative length. -/
theorem bytes_eq_iff {lim : Limits} {data : Bytes} {b : Blob}
    (h : bindBlob lim data data.length = some b) : b.bytes = data ↔ data.length < 2 ^ 31 := by
  constructor
  · rintro rfl
    exact b.length_lt
  · intro hlt
    have hc := cInt_of_lt hlt
    rw [bindBlob_eq_some h (by omega), hc, Int.toNat_natCast, List.take_length]

/-- The binds succeed within the length limit, as the converted size has it. -/
theorem exists_bindMessage {lim : Limits} {m : Message} (ht : m.getType.bytes.length ≤ lim.length)
    (h0 : 0 ≤ cInt m.getDataSize) (hl : cInt m.getDataSize ≤ lim.length) :
    ∃ row, bindMessage lim m = some row := by
  have hb : (m.getData.take (cInt m.getDataSize).toNat).length ≤ lim.length := by
    rw [List.length_take]
    omega
  refine Option.isSome_iff_exists.mp ?_
  simp only [bindMessage, bindText, if_pos ht, bindBlob, if_pos h0, if_pos hl, Limits.blob, dif_pos hb]
  rfl

/-- **What is read back of a written message.** Its type always; its data exactly when it has fewer
than `2 ^ 31` bytes. -/
theorem view_createMessageFromRow {lim : Limits} {m : Message} {row : MessageRow}
    (h : bindMessage lim m = some row) :
    (createMessageFromRow row).view = m.view ↔ m.getDataSize < 2 ^ 31 := by
  obtain ⟨ht, -, hb⟩ := bindMessage_eq_some h
  rw [m.getDataSize_eq] at hb ⊢
  rw [createMessageFromRow_eq, ht, Message.view_new, Message.view, Prod.mk.injEq, and_iff_right rfl]
  exact bytes_eq_iff hb

@[simp] theorem getType_createMessageFromRow (r : MessageRow) :
    (createMessageFromRow r).getType = r.type := by
  rw [createMessageFromRow_eq, Message.getType_new]

/-! ## Sending -/

/-- `WHERE type = @type`. -/
def hasType (type : CString) (r : Tagged MessageRow) : Bool := r.val.type = type

/-- `SET size = @size, blob_message = @blob_message`. -/
def setBlob (serial : ℕ) (row : MessageRow) (r : Tagged MessageRow) : Tagged MessageRow :=
  ⟨serial, { r.val with size := row.size, blobMessage := row.blobMessage }⟩

/-- The `UPDATE` of `m_update_message_stmt`. -/
def updateMessageStmt (t : MessageTable) (serial : ℕ) (row : MessageRow) : MessageTable :=
  t.update (hasType row.type) (setBlob serial row)

/-- The `INSERT` of `m_insert_message_stmt`. -/
def insertMessageStmt (t : MessageTable) (serial : ℕ) (row : MessageRow) : MessageTable :=
  t.insert ⟨serial, row⟩

/-- The row is within the limit; SQLite fails the `UPDATE` or the `INSERT` that makes a larger one. -/
def MessageRow.Fits (lim : Limits) (row : MessageRow) : Prop :=
  lim.rowSize row.type row.size row.blobMessage.bytes ≤ lim.length

instance (lim : Limits) (row : MessageRow) : Decidable (row.Fits lim) :=
  inferInstanceAs (Decidable (_ ≤ _))

/-- `WriteSendingMessage`: an overwriting message updates the rows of its type and is inserted only
if there is none. Every row written has the columns of `row`. -/
def writeSendingMessage (lim : Limits) (t : MessageTable) (message : Tagged Message) :
    Option MessageTable :=
  (bindMessage lim message.val).bind fun row =>
    if row.Fits lim then
      if message.val.getOverwriteMode ∧ t.matched (hasType row.type) ≠ 0 then
        some (updateMessageStmt t message.serial row)
      else
        some (insertMessageStmt t message.serial row)
    else none

/-- `SendMessages` between `BEGIN` and `COMMIT`, on the table and the outbox. -/
def sendMessages (lim : Limits) (t : MessageTable) (outbox : List (Tagged Message)) :
    Option (Bool × MessageTable × List (Tagged Message)) :=
  if outbox = [] then some (false, t, outbox)
  else (exec (writeSendingMessage lim) t outbox).map fun t' => (true, t', [])

theorem exec_of_sendMessages {lim : Limits} {t : MessageTable} {outbox : List (Tagged Message)}
    {r : Bool × MessageTable × List (Tagged Message)} (h : sendMessages lim t outbox = some r) :
    exec (writeSendingMessage lim) t outbox = some r.2.1 ∧ r.2.2 = [] := by
  unfold sendMessages at h
  split_ifs at h with he
  · rw [← Option.some.inj h, he]
    exact ⟨rfl, rfl⟩
  · obtain ⟨t', ht, rfl⟩ := Option.map_eq_some_iff.mp h
    exact ⟨ht, rfl⟩

/-- **What `WriteSendingMessage` does to the table.** -/
theorem writeSendingMessage_cases {lim : Limits} {t t' : MessageTable} {m : Tagged Message}
    (h : writeSendingMessage lim t m = some t') :
    ∃ row, bindMessage lim m.val = some row ∧
      ((m.val.overwrite = true ∧ (∃ r ∈ t.rows, r.val.val.type = row.type) ∧
          t' = updateMessageStmt t m.serial row) ∨
        ((m.val.overwrite = true → ∀ r ∈ t.rows, r.val.val.type ≠ row.type) ∧
          t' = insertMessageStmt t m.serial row)) := by
  obtain ⟨row, hrow, h⟩ := Option.bind_eq_some_iff.mp h
  refine ⟨row, hrow, ?_⟩
  have hm : t.matched (hasType row.type) = 0 ↔ ∀ r ∈ t.rows, r.val.val.type ≠ row.type := by
    simp [Table.matched_eq_zero_iff, hasType]
  split_ifs at h with hfit hc
  · refine .inl ⟨hc.1, ?_, (Option.some.inj h).symm⟩
    by_contra hn
    push Not at hn
    exact hc.2 (hm.mpr hn)
  · refine .inr ⟨fun ho => hm.mp ?_, (Option.some.inj h).symm⟩
    by_contra hne
    exact hc ⟨ho, hne⟩

/-- **When `WriteSendingMessage` succeeds.** -/
theorem isSome_writeSendingMessage_iff {lim : Limits} {t : MessageTable} {m : Tagged Message} :
    (writeSendingMessage lim t m).isSome ↔ ∃ row, bindMessage lim m.val = some row ∧ row.Fits lim := by
  rw [writeSendingMessage]
  cases hrow : bindMessage lim m.val with
  | none => simp
  | some row =>
    by_cases hfit : row.Fits lim
    · simp only [Option.bind_some, Option.some.injEq, exists_eq_left', hfit, iff_true]
      split_ifs <;> rfl
    · simp [hfit]

/-- The columns of a row are most of its size. -/
theorem fits_standard {n : ℕ} {hn : n < 2 ^ 31} {row : MessageRow}
    (h : row.type.bytes.length + row.blobMessage.bytes.length + 21 ≤ n) :
    row.Fits (.standard n hn) := by
  have hv : ∀ k, Limits.varintLength k ≤ 5 := fun k => by
    unfold Limits.varintLength
    split_ifs <;> omega
  have hi : Limits.integerLength row.size ≤ 8 := by
    unfold Limits.integerLength
    split_ifs <;> omega
  have ht := hv (13 + 2 * row.type.bytes.length)
  have hb := hv (12 + 2 * row.blobMessage.bytes.length)
  show Limits.recordSize row.type row.size row.blobMessage.bytes ≤ n
  rw [Limits.recordSize]
  omega

/-- A message of `2 ^ 32` bytes is written with an empty blob: its size converted to `int` is `0`. -/
theorem exists_bindMessage_two_pow {m : Message} (hd : m.getDataSize = 2 ^ 32)
    (ht : m.getType.bytes.length + 21 ≤ Limits.default.length) :
    ∃ row, bindMessage .default m = some row ∧ row.Fits .default ∧
      row.blobMessage.bytes = [] := by
  have hc : cInt m.getDataSize = 0 := by rw [hd, cInt_two_pow]
  obtain ⟨row, hrow⟩ : ∃ row, bindMessage .default m = some row :=
    exists_bindMessage (Nat.le_of_add_right_le ht) hc.ge (hc.le.trans (Int.natCast_nonneg _))
  obtain ⟨htype, -, hb⟩ := bindMessage_eq_some hrow
  have hbytes : row.blobMessage.bytes = [] := by
    rw [bindBlob_eq_some hb hc.ge, hc, Int.toNat_zero, List.take_zero]
  refine ⟨row, hrow, fits_standard ?_, hbytes⟩
  rwa [htype, hbytes, List.length_nil, Nat.add_zero]

/-! ## Receiving -/

/-- One turn of the scan: remember the row id, push the message. -/
def receiveRow (acc : List (Tagged Message) × ℕ) (r : Row (Tagged MessageRow)) :
    List (Tagged Message) × ℕ :=
  (acc.1 ++ [readRow r.val], r.rowId)

/-- The scan of `ReceiveMessages`: the inbox it leaves and its `delete_reference_id`. -/
def scan (t : MessageTable) (inbox : List (Tagged Message)) : List (Tagged Message) × ℕ :=
  t.rows.foldl receiveRow (inbox, 0)

/-- `DeleteOldMessages`. -/
def deleteOldMessages (t : MessageTable) (referenceId : ℕ) : MessageTable :=
  t.deleteUpTo referenceId

/-- `ReceiveMessages` when nothing comes between its two halves. -/
def receiveMessages (t : MessageTable) (inbox : List (Tagged Message)) :
    Bool × MessageTable × List (Tagged Message) :=
  if 0 < (scan t inbox).2 then (true, deleteOldMessages t (scan t inbox).2, (scan t inbox).1)
  else (false, t, (scan t inbox).1)

theorem foldl_receiveRow (rows : List (Row (Tagged MessageRow)))
    (acc : List (Tagged Message) × ℕ) :
    rows.foldl receiveRow acc =
      (acc.1 ++ rows.map fun r => readRow r.val, (rows.getLast?.map Row.rowId).getD acc.2) := by
  induction rows generalizing acc with
  | nil => simp
  | cons r rows ih =>
    rw [List.foldl_cons, ih, receiveRow]
    cases h : rows.getLast? <;> simp [List.getLast?_cons, h]

theorem scan_eq (t : MessageTable) (inbox : List (Tagged Message)) :
    scan t inbox = (inbox ++ t.rows.map fun r => readRow r.val, t.lastId) :=
  foldl_receiveRow t.rows (inbox, 0)

end Petunia
