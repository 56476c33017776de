import Petunia.Default.Medium

set_option autoImplicit false

/-!
# What a committed batch has stored of a message

`WriteSendingMessage` hands the 64-bit size of the data to an `int` parameter of `bind`, on its
`UPDATE` path and on its `INSERT` path.

* `WrittenFor`: the rows that `WriteSendingMessage` writes for a message, by the path it takes
  (`exists_writtenFor`, `bindMessage_writtenFor`);
* `StoredWhole`: such a row is decoded into the message's type and data;
* **`storedWhole_iff`**: where a negative length is an error, a committed batch has stored a message
  whole exactly when its data has fewer than `2 ^ 32` bytes. Of these sizes, `bind` fails for the
  ones that convert to a negative length and for the ones above the limit (`bindBlob`), and no batch
  with such a message is committed.
-/

namespace Petunia

open CTypes Lts Sql

/-- The row of `t'` that `WriteSendingMessage` writes for the message on the table `t`: a row of its
type on the `UPDATE` path, the new row on the `INSERT` path. -/
def WrittenFor (t t' : MessageTable) (message : Tagged Message) (r : Row (Tagged MessageRow)) :
    Prop :=
  r ∈ t'.rows ∧
    if message.val.overwrite = true ∧ ∃ x ∈ t.rows, x.val.val.type = message.val.getType then
      r.val.val.type = message.val.getType
    else r.rowId = t.lastId + 1

/-- `CreateMessageFromRow` reads the message's type and its whole data back. -/
def StoredWhole (t t' : MessageTable) (message : Tagged Message) : Prop :=
  ∀ r, WrittenFor t t' message r → (createMessageFromRow r.val.val).view = message.val.view

/-- A row is written for every message. -/
theorem exists_writtenFor {lim : Limits} {t t' : MessageTable} {m : Tagged Message}
    (h : writeSendingMessage lim t m = some t') : ∃ r, WrittenFor t t' m r := by
  obtain ⟨row, hrow, ⟨ho, ⟨x, hx, hxt⟩, rfl⟩ | ⟨hnone, rfl⟩⟩ := writeSendingMessage_cases h
  · have htype := (bindMessage_eq_some hrow).1
    refine ⟨Table.Row.set (hasType row.type) (setBlob m.serial row) x,
      List.mem_map_of_mem hx, ?_⟩
    rw [if_pos ⟨ho, x, hx, hxt.trans htype⟩]
    rw [Table.Row.set]
    split_ifs
    · exact hxt.trans htype
    · exact hxt.trans htype
  · have htype := (bindMessage_eq_some hrow).1
    refine ⟨⟨t.lastId + 1, ⟨m.serial, row⟩⟩,
      List.mem_append_right _ (List.mem_singleton_self _), ?_⟩
    rw [if_neg]
    rintro ⟨ho, x, hx, hxt⟩
    exact hnone ho x hx (hxt.trans htype.symm)

/-- **What `WriteSendingMessage` writes**, on either path: the columns that it has bound. -/
theorem bindMessage_writtenFor {lim : Limits} {t t' : MessageTable} {m : Tagged Message}
    {r : Row (Tagged MessageRow)} (h : writeSendingMessage lim t m = some t')
    (hr : WrittenFor t t' m r) : bindMessage lim m.val = some r.val.val := by
  obtain ⟨hmem, hr⟩ := hr
  obtain ⟨row, hrow, ⟨ho, ⟨x, hx, hxt⟩, rfl⟩ | ⟨hnone, rfl⟩⟩ := writeSendingMessage_cases h
  · have htype := (bindMessage_eq_some hrow).1
    rw [if_pos ⟨ho, x, hx, hxt.trans htype⟩] at hr
    obtain ⟨y, hy, rfl⟩ := List.mem_map.mp hmem
    rw [Table.Row.set] at hr ⊢
    split_ifs at hr ⊢ with hy'
    · -- the `SET` leaves the type, which is that of the message
      have hyt : y.val.val.type = row.type := hr.trans htype.symm
      simp only [hrow, setBlob, hyt]
    · exact absurd (hr.trans htype.symm) (by simpa [hasType] using hy')
  · rw [if_neg] at hr
    · rcases List.mem_append.mp hmem with hmem | hmem
      · -- the new row lies behind all others
        have hle := t.rowId_le_lastId hmem
        omega
      · rw [List.mem_singleton.mp hmem]
        exact hrow
    · rintro ⟨ho, x, hx, hxt⟩
      exact hnone ho x hx (hxt.trans (bindMessage_eq_some hrow).1.symm)

/-- If a negative length is an error, then data of fewer than `2 ^ 32` bytes that is bound has fewer
than `2 ^ 31`. -/
theorem lt_two_pow_of_bindMessage {lim : Limits} {m : Message} {row : MessageRow}
    (hneg : ∀ data n, n < 0 → lim.bindNegative data n = none)
    (hrow : bindMessage lim m = some row) (hm : m.getDataSize < 2 ^ 32) :
    m.getDataSize < 2 ^ 31 := by
  have hb := (bindMessage_eq_some hrow).2.2
  have h0 : 0 ≤ cInt m.getDataSize := by
    by_contra hc
    rw [bindBlob, if_neg hc, hneg _ _ (not_le.mp hc)] at hb
    cases hb
  exact cInt_eq_iff.mp (cInt_of_nonneg hm h0)

/-- A written message has been stored whole exactly when its size fits in 32 bits. -/
theorem storedWhole_of_write {lim : Limits} {t t' : MessageTable} {m : Tagged Message}
    (hneg : ∀ data n, n < 0 → lim.bindNegative data n = none)
    (h : writeSendingMessage lim t m = some t') :
    StoredWhole t t' m ↔ m.val.getDataSize < 2 ^ 32 := by
  obtain ⟨r, hr⟩ := exists_writtenFor h
  constructor
  · intro hs
    have hlt := (view_createMessageFromRow (bindMessage_writtenFor h hr)).mp (hs r hr)
    exact hlt.trans (by decide)
  · intro hm r hr
    have hrow := bindMessage_writtenFor h hr
    exact (view_createMessageFromRow hrow).mpr (lt_two_pow_of_bindMessage hneg hrow hm)

/-- A committed batch, cut at one of its messages. -/
theorem writes_of_sendMessages {lim : Limits} {t : MessageTable} {pre post : List (Tagged Message)}
    {m : Tagged Message} {r : Bool × MessageTable × List (Tagged Message)}
    (h : sendMessages lim t (pre ++ m :: post) = some r) :
    ∃ u u', exec (writeSendingMessage lim) t pre = some u ∧ writeSendingMessage lim u m = some u' ∧
      exec (writeSendingMessage lim) u' post = some r.2.1 := by
  have hexec := (exec_of_sendMessages h).1
  rw [exec_append] at hexec
  obtain ⟨u, hu, hrest⟩ := Option.bind_eq_some_iff.mp hexec
  obtain ⟨u', hu', hpost⟩ := exec_cons_eq_some.mp hrest
  exact ⟨u, u', hu, hu', hpost⟩

/-- **When a committed batch has stored a message whole**: exactly when its data has fewer than
`2 ^ 32` bytes, if SQLite takes a negative length for an error. -/
theorem storedWhole_iff {lim : Limits} {t : MessageTable} {pre post : List (Tagged Message)}
    {m : Tagged Message} {r : Bool × MessageTable × List (Tagged Message)}
    (hneg : ∀ data n, n < 0 → lim.bindNegative data n = none)
    (h : sendMessages lim t (pre ++ m :: post) = some r) :
    ∃ u u', exec (writeSendingMessage lim) t pre = some u ∧ writeSendingMessage lim u m = some u' ∧
      (∃ r, WrittenFor u u' m r) ∧ (StoredWhole u u' m ↔ m.val.getDataSize < 2 ^ 32) := by
  obtain ⟨u, u', hu, hw, -⟩ := writes_of_sendMessages h
  exact ⟨u, u', hu, hw, exists_writtenFor hw, storedWhole_of_write hneg hw⟩

/-- An update of a row that the same batch has inserted. -/
theorem storedWhole_iff_update :
    ∃ u u', exec (writeSendingMessage .default) .empty [⟨0, .new [97] [1]⟩] = some u ∧
      writeSendingMessage .default u ⟨1, (Message.new [97] [2]).setOverwriteMode true⟩ = some u' ∧
      StoredWhole u u' ⟨1, (Message.new [97] [2]).setOverwriteMode true⟩ := by
  obtain ⟨r, hr⟩ : ∃ r, sendMessages .default .empty ([⟨0, .new [97] [1]⟩] ++
      ⟨1, (Message.new [97] [2]).setOverwriteMode true⟩ :: []) = some r :=
    Option.isSome_iff_exists.mp (by decide +kernel)
  obtain ⟨u, u', hu, hw, -, hs⟩ := storedWhole_iff (fun _ _ _ => rfl) hr
  exact ⟨u, u', hu, hw, hs.mpr (by decide)⟩

/-- **Data of `2 ^ 32` bytes** is committed as an empty blob. -/
theorem not_storedWhole_two_pow :
    ∃ data : Bytes, data.length = 2 ^ 32 ∧
      ∃ t', sendMessages .default .empty [⟨0, .new [97] data⟩] = some (true, t', []) ∧
        writeSendingMessage .default .empty ⟨0, .new [97] data⟩ = some t' ∧
        ¬ StoredWhole .empty t' ⟨0, .new [97] data⟩ := by
  have key : ∀ d : Bytes, d.length = 2 ^ 32 →
      ∃ t', sendMessages .default .empty [⟨0, .new [97] d⟩] = some (true, t', []) ∧
        writeSendingMessage .default .empty ⟨0, .new [97] d⟩ = some t' ∧
        ¬ StoredWhole .empty t' ⟨0, .new [97] d⟩ := by
    intro d hd
    have hsize : (Message.new [97] d).getDataSize = 2 ^ 32 := hd
    obtain ⟨row, hrow, hfit, -⟩ := exists_bindMessage_two_pow hsize
      (by simp [Message.new, Message.getType, cStr, Limits.default, Limits.standard])
    obtain ⟨t', ht'⟩ : ∃ t', writeSendingMessage .default .empty ⟨0, .new [97] d⟩ = some t' :=
      Option.isSome_iff_exists.mp (isSome_writeSendingMessage_iff.mpr ⟨row, hrow, hfit⟩)
    refine ⟨t', ?_, ht', fun hs => ?_⟩
    · rw [sendMessages, if_neg (List.cons_ne_nil _ _), exec_cons, ht']
      rfl
    · have hlt := (storedWhole_of_write (fun _ _ _ => rfl) ht').mp hs
      rw [hsize] at hlt
      exact absurd hlt (lt_irrefl _)
  exact ⟨List.replicate (2 ^ 32) 65, List.length_replicate, key _ List.length_replicate⟩

end Petunia
