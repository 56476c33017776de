import Petunia.Default.Fifo
import Petunia.Lib.KeyedLog

set_option autoImplicit false

/-!
# The slot of a type that is only updated

If every message of a type is sent through `UpdateMessage`, its rows in the table are a slot for the
latest value: the `UPDATE` rewrites the row if there is one, and only if it matched none is a row
inserted. No constraint of the table says so.

* `Holds`, `HoldsLatest`: a row holds what is bound for some data; the table has at most one row of
  the type, and it holds the last data (`holdsLatest_write`, `holdsLatest_exec`);
* `LinkAct.fits`, `LinkAct.commits`: the condition on a committed batch, and what it commits;
* `Link.Slot`, `Link.Slotted`: the invariant, and the log of committed messages that carries it;
* **`slot_iff`**: it holds exactly as long as a row of the type was written for fewer than `2 ^ 31`
  bytes; **`slot_of_fits`**: it holds in every run whose batches fit;
  `slot_fails_long_update` is a run beyond that bound.
-/

namespace Petunia

open CTypes Lts Sql KeyedLog

/-- No step sends a message of the type but by `UpdateMessage`. -/
def LinkAct.onlyUpdates (type : CString) : LinkAct → Prop
  | .push m => m.getType = type → m.overwrite = true
  | .setOverwriteMode _ b => b = true
  | _ => True

/-- The last message of the type in a batch has fewer than `2 ^ 31` bytes. -/
def LinkAct.fits (type : CString) (s : Link) : LinkAct → Prop
  | .sendMessages => ∀ data ∈ latest type (s.outbox.map fun m => m.val.view), data.length < 2 ^ 31
  | _ => True

instance LinkAct.decidableFits (type : CString) (s : Link) :
    ∀ a : LinkAct, Decidable (a.fits type s)
  | .sendMessages => inferInstanceAs (Decidable (∀ data ∈ latest _ _, _))
  | .push _ | .setOverwriteMode _ _ | .scan | .deleteOldMessages => isTrue trivial

/-- What a step commits. -/
def LinkAct.commits (s : Link) : LinkAct → List (CString × Bytes)
  | .sendMessages => s.outbox.map fun m => m.val.view
  | .push _ | .setOverwriteMode _ _ | .scan | .deleteOldMessages => []

/-! ## The rows of one type -/

/-- The row holds what is bound for the data. -/
def Holds (lim : Limits) (data : Bytes) (r : Tagged MessageRow) : Prop :=
  bindBlob lim data data.length = some r.val.blobMessage

/-- The table has at most one row of the type, and such a row holds `last`. -/
structure HoldsLatest (lim : Limits) (type : CString) (last : Option Bytes) (t : MessageTable) :
    Prop where
  atMostOne : t.matched (hasType type) ≤ 1
  holds : ∀ r ∈ t.rows, r.val.val.type = type → ∃ data, last = some data ∧ Holds lim data r.val

theorem holds_of_bindMessage {lim : Limits} {serial : ℕ} {m : Message} {row : MessageRow}
    (h : bindMessage lim m = some row) : Holds lim m.getData ⟨serial, row⟩ := by
  obtain ⟨-, -, hb⟩ := bindMessage_eq_some h
  rwa [m.getDataSize_eq] at hb

/-- The `SET` of an `UPDATE` does not touch the type. -/
theorem hasType_setBlob (type : CString) (serial : ℕ) (row : MessageRow) (r : Tagged MessageRow) :
    hasType type (setBlob serial row r) = hasType type r := rfl

/-- The `UPDATE` for a message. -/
theorem holdsLatest_update {lim : Limits} {type : CString} {last : Option Bytes} {t : MessageTable}
    {m : Tagged Message} {row : MessageRow} (ht : HoldsLatest lim type last t)
    (hrow : bindMessage lim m.val = some row) :
    HoldsLatest lim type (if m.val.getType = type then some m.val.getData else last)
      (updateMessageStmt t m.serial row) := by
  have htype := (bindMessage_eq_some hrow).1
  refine ⟨?_, fun r hr hrt => ?_⟩
  · rw [updateMessageStmt, Table.matched_update t (hasType_setBlob type m.serial row)]
    exact ht.atMostOne
  · rw [updateMessageStmt, Table.rows_update] at hr
    obtain ⟨x, hx, rfl⟩ := List.mem_map.mp hr
    by_cases hxt : x.val.val.type = row.type
    · -- the row is rewritten
      have hset : Table.Row.set (hasType row.type) (setBlob m.serial row) x =
          ⟨x.rowId, setBlob m.serial row x.val⟩ := by
        rw [Table.Row.set, if_pos (by simpa [hasType] using hxt)]
      rw [hset] at hrt ⊢
      have hmt : m.val.getType = type := by rw [← htype, ← hxt]; exact hrt
      rw [if_pos hmt]
      exact ⟨m.val.getData, rfl, (holds_of_bindMessage hrow : Holds _ _ ⟨m.serial, row⟩)⟩
    · have hset : Table.Row.set (hasType row.type) (setBlob m.serial row) x = x := by
        rw [Table.Row.set, if_neg (by simpa [hasType] using hxt)]
      rw [hset] at hrt ⊢
      have hmt : m.val.getType ≠ type := fun hmt => hxt (by rw [hrt, htype, hmt])
      rw [if_neg hmt]
      exact ht.holds x hx hrt

/-- The `INSERT` for a message of another type. -/
theorem holdsLatest_insert_of_ne {lim : Limits} {type : CString} {last : Option Bytes} {t : MessageTable}
    {row : MessageRow} (ht : HoldsLatest lim type last t) (hrt : row.type ≠ type) (serial : ℕ) :
    HoldsLatest lim type last (insertMessageStmt t serial row) := by
  refine ⟨?_, fun r hr hrt' => ?_⟩
  · rw [insertMessageStmt, Table.matched_insert, if_neg (by simpa [hasType] using hrt)]
    exact ht.atMostOne
  · rcases List.mem_append.mp hr with hr | hr
    · exact ht.holds r hr hrt'
    · rw [List.mem_singleton.mp hr] at hrt'
      exact absurd hrt' hrt

/-- The `INSERT` for a message of the type, into a table without rows of the type. -/
theorem holdsLatest_insert {lim : Limits} {type : CString} {t : MessageTable} {m : Tagged Message}
    {row : MessageRow} (hno : ∀ r ∈ t.rows, r.val.val.type ≠ type)
    (hrow : bindMessage lim m.val = some row) :
    HoldsLatest lim type (some m.val.getData) (insertMessageStmt t m.serial row) := by
  refine ⟨?_, fun r hr hrt => ?_⟩
  · have h0 : t.matched (hasType type) = 0 :=
      Table.matched_eq_zero_iff.mpr fun r hr => by simpa [hasType] using hno r hr
    rw [insertMessageStmt, Table.matched_insert, h0]
    split_ifs <;> omega
  · rcases List.mem_append.mp hr with hr | hr
    · exact absurd hrt (hno r hr)
    · rw [List.mem_singleton.mp hr]
      exact ⟨m.val.getData, rfl, holds_of_bindMessage hrow⟩

/-- **One written message keeps the slot**, with its data as the last if it is of the type. -/
theorem holdsLatest_write {lim : Limits} {type : CString} {last : Option Bytes} {t t' : MessageTable}
    {m : Tagged Message} (ht : HoldsLatest lim type last t)
    (hm : m.val.getType = type → m.val.overwrite = true)
    (h : writeSendingMessage lim t m = some t') :
    HoldsLatest lim type (if m.val.getType = type then some m.val.getData else last) t' := by
  obtain ⟨row, hrow, ⟨ho, -, rfl⟩ | ⟨hnone, rfl⟩⟩ := writeSendingMessage_cases h
  · exact holdsLatest_update ht hrow
  · have htype := (bindMessage_eq_some hrow).1
    by_cases hmt : m.val.getType = type
    · -- an update is inserted only where no row has its type
      rw [if_pos hmt]
      refine holdsLatest_insert (fun r hr => ?_) hrow
      rw [← hmt, ← htype]
      exact hnone (hm hmt) r hr
    · rw [if_neg hmt]
      exact holdsLatest_insert_of_ne ht (by rw [htype]; exact hmt) m.serial

/-- A batch keeps the slot, with its own last data of the type if it has any. -/
theorem holdsLatest_exec {lim : Limits} {type : CString} {last : Option Bytes} {t t' : MessageTable}
    {ms : List (Tagged Message)} (ht : HoldsLatest lim type last t)
    (hms : ∀ m ∈ ms, m.val.getType = type → m.val.overwrite = true)
    (h : exec (writeSendingMessage lim) t ms = some t') :
    HoldsLatest lim type ((latest type (ms.map fun m => m.val.view)).or last) t' := by
  induction ms generalizing t last with
  | nil => cases h; exact ht
  | cons m ms ih =>
    obtain ⟨u, hu, h⟩ := exec_cons_eq_some.mp h
    have h1 := holdsLatest_write ht (hms m List.mem_cons_self) hu
    have h2 := ih h1 (fun x hx => hms x (List.mem_cons_of_mem m hx)) h
    have hlast : (if m.val.view.1 = type then some m.val.view.2 else none).or last =
        if m.val.getType = type then some m.val.getData else last := by
      by_cases hmt : m.val.getType = type
      · rw [if_pos (show m.val.view.1 = type from hmt), if_pos hmt]; rfl
      · rw [if_neg (show ¬ m.val.view.1 = type from hmt), if_neg hmt]; rfl
    rw [List.map_cons, latest_cons, Option.or_assoc, hlast]
    exact h2

theorem holdsLatest_deleteUpTo {lim : Limits} {type : CString} {last : Option Bytes} {t : MessageTable}
    (ht : HoldsLatest lim type last t) (n : ℕ) : HoldsLatest lim type last (t.deleteUpTo n) :=
  ⟨(t.matched_deleteUpTo_le _ n).trans ht.atMostOne,
    fun r hr hrt => ht.holds r (List.mem_filter.mp hr).1 hrt⟩

namespace Link

/-- **The slot of a type**: at most one row, and its blob is the data of the last committed message
of the type. -/
def Slot (type : CString) (s : Link) : Prop :=
  s.table.matched (hasType type) ≤ 1 ∧ ∀ r ∈ s.table.rows, r.val.val.type = type →
    latest type (s.written.map fun m => m.val.view) = some r.val.val.blobMessage.bytes

/-- The table holds the latest of the log `w` of committed messages. -/
structure Slotted (lim : Limits) (type : CString) (w : List (CString × Bytes)) (s : Link) : Prop where
  updates : ∀ m ∈ s.outbox, m.val.getType = type → m.val.overwrite = true
  pushed : s.pushed.map (fun m => m.val.view) = w ++ s.outbox.map fun m => m.val.view
  table : HoldsLatest lim type (latest type w) s.table

theorem Slotted.written_eq {lim : Limits} {type : CString} {w : List (CString × Bytes)} {s : Link}
    (h : Slotted lim type w s) : (s.written.map fun m => m.val.view) = w := by
  have hlen := congrArg List.length h.pushed
  rw [List.length_map, List.length_append, List.length_map] at hlen
  rw [written, List.map_take, h.pushed, hlen, Nat.add_sub_cancel]
  exact List.take_left

/-- **One step adds what it commits to the log.** -/
theorem slotted_step {lim : Limits} {type : CString} {w : List (CString × Bytes)} {s s' : Link}
    {a : LinkAct} (hs : Slotted lim type w s) (ha : a.onlyUpdates type) (h : step lim s a = some s') :
    Slotted lim type (w ++ a.commits s) s' := by
  obtain ⟨hup, hpu, ht⟩ := hs
  cases a with
  | push m =>
    rw [step_push h, LinkAct.commits, List.append_nil]
    refine ⟨fun x hx => ?_, by simp [hpu], ht⟩
    rcases List.mem_append.mp hx with hx | hx
    · exact hup x hx
    · rw [List.mem_singleton.mp hx]; exact ha
  | setOverwriteMode i b =>
    have hview := map_outbox_setOverwriteMode h (fun m => m.val.view) fun _ => rfl
    have hs' := step_setOverwriteMode h
    rw [LinkAct.commits, List.append_nil]
    refine ⟨fun x hx hxt => ?_, by rw [hview, hs']; exact hpu, by rw [hs']; exact ht⟩
    -- a flag is only set
    have hb : b = true := ha
    rw [hs', List.mem_iff_getElem?] at hx
    obtain ⟨j, hj⟩ := hx
    rw [List.getElem?_modify] at hj
    obtain ⟨y, hy, rfl⟩ := Option.map_eq_some_iff.mp hj
    by_cases hij : i = j
    · rw [if_pos hij]; exact hb
    · rw [if_neg hij] at hxt ⊢
      exact hup y (List.mem_of_getElem? hy) hxt
  | sendMessages =>
    obtain ⟨t, hexec, rfl⟩ := step_sendMessages h
    refine ⟨by simp, by simpa [LinkAct.commits] using hpu, ?_⟩
    rw [LinkAct.commits, latest_append]
    exact holdsLatest_exec ht hup hexec
  | scan =>
    obtain ⟨ho, hpu', htab, -, -⟩ := step_scan h
    rw [LinkAct.commits, List.append_nil]
    exact ⟨by rwa [ho], by rwa [hpu', ho], by rwa [htab]⟩
  | deleteOldMessages =>
    obtain ⟨n, -, rfl⟩ := Option.map_eq_some_iff.mp h
    rw [LinkAct.commits, List.append_nil]
    exact ⟨hup, hpu, holdsLatest_deleteUpTo ht n⟩

theorem slotted_init (lim : Limits) (type : CString) : Slotted lim type [] init where
  updates _ hm := absurd hm List.not_mem_nil
  pushed := rfl
  table := ⟨Nat.zero_le _, fun _ hr => absurd hr List.not_mem_nil⟩

theorem slotted_exec {lim : Limits} {type : CString} {s : Link} {as : List LinkAct}
    (h : exec (step lim) init as = some s) (ha : ∀ a ∈ as, a.onlyUpdates type) :
    ∃ w, Slotted lim type w s :=
  exec_invariant_along (C := fun _ a => a.onlyUpdates type) (I := fun s => ∃ w, Slotted lim type w s)
    (fun _ _ _ ⟨_, hw⟩ hC hstep => ⟨_, slotted_step hw hC hstep⟩) h
    (along_of_forall fun a hmem _ => ha a hmem) ⟨[], slotted_init lim type⟩

/-- **When the slot holds the latest value**: whenever the table has a row of the type, the last
committed message of the type had fewer than `2 ^ 31` bytes. -/
theorem slot_iff {lim : Limits} {type : CString} {s : Link} {as : List LinkAct}
    (h : exec (step lim) init as = some s) (ha : ∀ a ∈ as, a.onlyUpdates type) :
    s.Slot type ↔ ∀ r ∈ s.table.rows, r.val.val.type = type →
      ∀ data ∈ latest type (s.written.map fun m => m.val.view), data.length < 2 ^ 31 := by
  obtain ⟨w, hw⟩ := slotted_exec h ha
  rw [Slot, hw.written_eq, and_iff_right hw.table.atMostOne]
  refine forall₂_congr fun r hr => forall_congr' fun hrt => ?_
  obtain ⟨data, hlast, hb⟩ := hw.table.holds r hr hrt
  rw [hlast, Option.some.injEq]
  simp only [Option.mem_some_iff, forall_eq']
  rw [eq_comm]
  exact bytes_eq_iff hb

/-- A step whose batch fits leaves a log whose last data of the type fits. -/
theorem fits_step {type : CString} {w : List (CString × Bytes)} {s : Link} {a : LinkAct}
    (hw : ∀ data ∈ latest type w, data.length < 2 ^ 31) (ha : a.fits type s) :
    ∀ data ∈ latest type (w ++ a.commits s), data.length < 2 ^ 31 := by
  cases a with
  | sendMessages =>
    intro data hdata
    rw [latest_append, Option.mem_def, Option.or_eq_some_iff] at hdata
    rcases hdata with hdata | ⟨-, hdata⟩
    · exact ha data hdata
    · exact hw data hdata
  | push _ | setOverwriteMode _ _ | scan | deleteOldMessages =>
    rw [LinkAct.commits, List.append_nil]
    exact hw

/-- **The latest-value slot.** In every run in which all messages of a type are updates and no batch
ends, for the type, with data of `2 ^ 31` bytes or more, the table has at most one row of the type,
and its blob is the data of the last committed message of the type. -/
theorem slot_of_fits {lim : Limits} {type : CString} {s : Link} {as : List LinkAct}
    (h : exec (step lim) init as = some s) (ha : ∀ a ∈ as, a.onlyUpdates type)
    (hf : Along (step lim) (fun s a => a.fits type s) init as) : s.Slot type := by
  obtain ⟨w, hw, hlast⟩ := exec_invariant_along
    (I := fun s => ∃ w, Slotted lim type w s ∧ ∀ data ∈ latest type w, data.length < 2 ^ 31)
    (fun s a t ⟨w, hw, hlast⟩ hC hstep => ⟨_, slotted_step hw hC.1 hstep, fits_step hlast hC.2⟩) h
    ((along_of_forall fun a hmem _ => ha a hmem).and hf)
    ⟨[], slotted_init lim type, fun data hdata => nomatch hdata⟩
  refine (slot_iff h ha).mpr fun r _ _ data hdata => ?_
  rw [hw.written_eq] at hdata
  exact hlast data hdata

/-- Two updates of a type around a message of another. -/
theorem slot_of_fits_two :
    (⟨[], ⟨[⟨1, ⟨2, cStr [116], 1, [2], by decide⟩⟩, ⟨2, ⟨1, cStr [117], 0, [], by decide⟩⟩],
      by decide, by decide⟩, none, [], [⟨0, [116], [1], true⟩, ⟨1, [117], [], false⟩,
        ⟨2, [116], [2], true⟩]⟩ : Link).Slot (cStr [116]) :=
  slot_of_fits (show exec (step .default) init [.updateMessage (.new [116] [1]),
      .sendMessage (.new [117] []), .sendMessages, .updateMessage (.new [116] [2]),
      .sendMessages] = some _ from by decide +kernel)
    (by simp [LinkAct.sendMessage, LinkAct.updateMessage, LinkAct.onlyUpdates, Message.new,
      Message.setOverwriteMode, Message.getType, cStr])
    (by decide +kernel)

/-- Every longer update that SQLite accepts leaves a slot with other data. -/
theorem not_slot_of_long {lim : Limits} {m : Message} {row : MessageRow}
    (hrow : bindMessage lim m = some row) (hfit : row.Fits lim) (hlong : 2 ^ 31 ≤ m.getDataSize) :
    ∃ s, exec (step lim) init [.updateMessage m, .sendMessages] = some s ∧ ¬ s.Slot m.getType := by
  have hrun := exec_push_sendMessages (m := m.setOverwriteMode true) hrow hfit
  have hup : ∀ a ∈ [LinkAct.updateMessage m, .sendMessages], a.onlyUpdates m.getType := by
    simp [LinkAct.updateMessage, LinkAct.onlyUpdates, Message.setOverwriteMode]
  refine ⟨_, hrun, fun hslot => ?_⟩
  have hdata := (slot_iff hrun hup).mp hslot ⟨1, 0, row⟩ List.mem_cons_self
    (bindMessage_eq_some hrow).1 m.getData (by
      simp [written, latest, Message.view, Message.setOverwriteMode, Message.getType,
        Message.getData])
  exact absurd hdata (Nat.not_lt.mpr hlong)

/-- **An update of `2 ^ 32` bytes leaves an empty slot.** -/
theorem slot_fails_long_update :
    ∃ s, exec (step .default) init
        [.updateMessage (.new [116] (List.replicate (2 ^ 32) 65)), .sendMessages] = some s ∧
      ¬ s.Slot (cStr [116]) := by
  have key : ∀ d : Bytes, d.length = 2 ^ 32 → ∃ s, exec (step .default) init
      [.updateMessage (.new [116] d), .sendMessages] = some s ∧ ¬ s.Slot (cStr [116]) := by
    intro d hd
    have hsize : (Message.new [116] d).getDataSize = 2 ^ 32 := hd
    obtain ⟨row, hrow, hfit, -⟩ := exists_bindMessage_two_pow hsize
      (by simp [Message.new, Message.getType, cStr, Limits.default, Limits.standard])
    exact not_slot_of_long hrow hfit (by rw [hsize]; decide)
  exact key _ List.length_replicate

end Link

end Petunia
