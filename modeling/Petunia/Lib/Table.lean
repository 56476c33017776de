import Mathlib.Data.List.Induction
import Mathlib.Data.List.Pairwise
import Mathlib.Order.Nat

set_option autoImplicit false

/-!
# Tables keyed by a row id

A table lists its rows in the order of their ids; the ids are positive and strictly increasing, and
the structure carries this. A new row gets the id after the largest one, hence `1` in an empty
table. The operations are those of SQL on such a table.

* `insert`, `update`, `deleteUpTo`, `next`: `INSERT`, `UPDATE … WHERE`, `DELETE … WHERE id <= n`,
  and the next row of a scan in id order;
* `after`: the rows beyond an id, with its value after each operation (`after_insert`,
  `after_update`);
* `rowIds`: the ids in use, after each operation (`mem_rowIds_insert`, `mem_rowIds_deleteUpTo`).
-/

namespace Sql

variable {β : Type*}

/-- A row: its id and its columns. -/
structure Row (β : Type*) where
  rowId : ℕ
  val : β
  deriving DecidableEq

/-- A table: rows in strictly increasing order of positive ids. -/
@[ext] structure Table (β : Type*) where
  rows : List (Row β)
  sorted : rows.Pairwise (·.rowId < ·.rowId)
  pos : ∀ r ∈ rows, 0 < r.rowId
  deriving DecidableEq

namespace Table

/-- The table without rows. -/
def empty : Table β := ⟨[], .nil, by simp⟩

/-- The largest id, `0` in an empty table. -/
def lastId (t : Table β) : ℕ := (t.rows.getLast?.map Row.rowId).getD 0

theorem rowId_le_lastId (t : Table β) {r : Row β} (h : r ∈ t.rows) : r.rowId ≤ t.lastId := by
  obtain ⟨rows, sorted, pos⟩ := t
  simp only [lastId] at h ⊢
  induction rows using List.reverseRecOn with
  | nil => simp at h
  | append_singleton rows x _ =>
    simp only [List.getLast?_concat, Option.map_some, Option.getD_some]
    rcases List.mem_append.mp h with h | h
    · exact Nat.le_of_lt ((List.pairwise_append.mp sorted).2.2 r h x (by simp))
    · exact (congrArg Row.rowId (List.mem_singleton.mp h)).le

theorem lastId_pos_iff (t : Table β) : 0 < t.lastId ↔ t.rows ≠ [] := by
  obtain ⟨rows, sorted, pos⟩ := t
  simp only [lastId]
  induction rows using List.reverseRecOn with
  | nil => simp
  | append_singleton rows x _ => simpa using pos x (by simp)

/-- `INSERT`: a new last row whose id is the largest one plus one. -/
def insert (t : Table β) (v : β) : Table β where
  rows := t.rows ++ [⟨t.lastId + 1, v⟩]
  sorted := by
    refine List.pairwise_append.mpr ⟨t.sorted, List.pairwise_singleton _ _, fun r hr x hx => ?_⟩
    rw [List.mem_singleton.mp hx]
    exact Nat.lt_succ_of_le (t.rowId_le_lastId hr)
  pos r hr := by
    rcases List.mem_append.mp hr with hr | hr
    · exact t.pos r hr
    · rw [List.mem_singleton.mp hr]; exact Nat.succ_pos _

/-- Change the columns of a row that satisfies `p`. -/
def Row.set (p : β → Bool) (f : β → β) (r : Row β) : Row β :=
  if p r.val then { r with val := f r.val } else r

@[simp] theorem Row.rowId_set (p : β → Bool) (f : β → β) (r : Row β) :
    (Row.set p f r).rowId = r.rowId := by
  unfold Row.set; split_ifs <;> rfl

/-- `UPDATE … WHERE p`: change every row that satisfies `p`. -/
def update (t : Table β) (p : β → Bool) (f : β → β) : Table β where
  rows := t.rows.map (Row.set p f)
  sorted := by
    rw [List.pairwise_map]
    exact t.sorted.imp fun h => by simpa using h
  pos r hr := by
    obtain ⟨x, hx, rfl⟩ := List.mem_map.mp hr
    simpa using t.pos x hx

/-- The number of rows that an `UPDATE … WHERE p` matches. -/
def matched (t : Table β) (p : β → Bool) : ℕ := t.rows.countP fun r => p r.val

/-- `DELETE … WHERE id <= n`. -/
def deleteUpTo (t : Table β) (n : ℕ) : Table β where
  rows := t.rows.filter (n < ·.rowId)
  sorted := t.sorted.filter _
  pos r hr := t.pos r (List.mem_filter.mp hr).1

/-- The number of rows that it deletes. -/
def matchedUpTo (t : Table β) (n : ℕ) : ℕ := t.rows.countP (·.rowId ≤ n)

/-- The rows beyond id `n`. -/
def after (t : Table β) (n : ℕ) : List (Row β) := t.rows.filter (n < ·.rowId)

/-- The first row beyond id `n`: the next row of a scan that stands on `n`. -/
def next (t : Table β) (n : ℕ) : Option (Row β) := (t.after n).head?

theorem rows_insert (t : Table β) (v : β) :
    (t.insert v).rows = t.rows ++ [⟨t.lastId + 1, v⟩] := rfl

theorem rows_update (t : Table β) (p : β → Bool) (f : β → β) :
    (t.update p f).rows = t.rows.map (Row.set p f) := rfl

theorem rows_deleteUpTo (t : Table β) (n : ℕ) : (t.deleteUpTo n).rows = t.after n := rfl

@[simp] theorem lastId_insert (t : Table β) (v : β) : (t.insert v).lastId = t.lastId + 1 := by
  simp [lastId, rows_insert]

@[simp] theorem lastId_update (t : Table β) (p : β → Bool) (f : β → β) :
    (t.update p f).lastId = t.lastId := by
  simp only [lastId, rows_update, List.getLast?_map, Option.map_map]
  congr 2
  exact funext fun r => Row.rowId_set p f r

theorem mem_after {t : Table β} {n : ℕ} {r : Row β} : r ∈ t.after n ↔ r ∈ t.rows ∧ n < r.rowId := by
  simp [after]

@[simp] theorem after_zero (t : Table β) : t.after 0 = t.rows :=
  List.filter_eq_self.mpr fun r hr => by simpa using t.pos r hr

theorem after_eq_nil {t : Table β} {n : ℕ} (h : t.lastId ≤ n) : t.after n = [] :=
  List.filter_eq_nil_iff.mpr fun r hr => by
    simpa using Nat.le_trans (t.rowId_le_lastId hr) h

/-- A new row lies beyond every id in use. -/
theorem after_insert {t : Table β} {n : ℕ} (h : n ≤ t.lastId) (v : β) :
    (t.insert v).after n = t.after n ++ [⟨t.lastId + 1, v⟩] := by
  simp [after, rows_insert, Nat.lt_succ_of_le h]

theorem after_update (t : Table β) (p : β → Bool) (f : β → β) (n : ℕ) :
    (t.update p f).after n = (t.after n).map (Row.set p f) := by
  simp [after, rows_update, List.filter_map, Function.comp_def]

/-- A scan that finds no further row stands on the largest id or beyond it. -/
theorem next_eq_none_iff {t : Table β} {n : ℕ} : t.next n = none ↔ t.lastId ≤ n := by
  rw [next, List.head?_eq_none_iff]
  refine ⟨fun h => ?_, after_eq_nil⟩
  by_contra hn
  obtain ⟨r, hr, he⟩ : ∃ r ∈ t.rows, r.rowId = t.lastId := by
    have hne : t.rows ≠ [] := t.lastId_pos_iff.mp (by omega)
    refine ⟨t.rows.getLast hne, List.getLast_mem hne, ?_⟩
    rw [lastId, List.getLast?_eq_some_getLast hne]
    rfl
  have hmem : r ∈ t.after n := mem_after.mpr ⟨hr, by omega⟩
  rw [h] at hmem
  exact absurd hmem List.not_mem_nil

/-- **One step of a scan**: the row found is the first of those that remained. -/
theorem after_of_next {t : Table β} {n : ℕ} {r : Row β} (h : t.next n = some r) :
    r ∈ t.rows ∧ t.after n = r :: t.after r.rowId := by
  obtain ⟨rest, hcons⟩ := List.head?_eq_some_iff.mp h
  have hmem := mem_after.mp (hcons ▸ List.mem_cons_self : r ∈ t.after n)
  refine ⟨hmem.1, ?_⟩
  have hsorted : (r :: rest).Pairwise (·.rowId < ·.rowId) := by
    rw [← hcons]; exact t.sorted.filter _
  -- beyond `r` lie exactly the later rows of the tail
  have hfilter : (t.after n).filter (r.rowId < ·.rowId) = rest := by
    rw [hcons, List.filter_cons_of_neg (by simp)]
    refine List.filter_eq_self.mpr fun x hx => ?_
    simpa using (List.pairwise_cons.mp hsorted).1 x hx
  have hafter : t.after r.rowId = (t.after n).filter (r.rowId < ·.rowId) := by
    rw [after, after, List.filter_filter]
    refine List.filter_congr fun x _ => ?_
    by_cases hx : r.rowId < x.rowId
    · have : n < x.rowId := by have := hmem.2; omega
      simp [hx, this]
    · simp [hx]
  rw [hafter, hfilter]
  exact hcons

/-! ## The ids in use -/

/-- The ids of the rows. -/
def rowIds (t : Table β) : List ℕ := t.rows.map Row.rowId

theorem pos_of_mem_rowIds {t : Table β} {i : ℕ} (h : i ∈ t.rowIds) : 0 < i := by
  obtain ⟨r, hr, rfl⟩ := List.mem_map.mp h
  exact t.pos r hr

theorem le_lastId_of_mem_rowIds {t : Table β} {i : ℕ} (h : i ∈ t.rowIds) : i ≤ t.lastId := by
  obtain ⟨r, hr, rfl⟩ := List.mem_map.mp h
  exact t.rowId_le_lastId hr

@[simp] theorem rowIds_update (t : Table β) (p : β → Bool) (f : β → β) :
    (t.update p f).rowIds = t.rowIds := by
  rw [rowIds, rows_update, List.map_map]
  exact List.map_congr_left fun r _ => Row.rowId_set p f r

theorem mem_rowIds_insert {t : Table β} {v : β} {i : ℕ} :
    i ∈ (t.insert v).rowIds ↔ i ∈ t.rowIds ∨ i = t.lastId + 1 := by
  simp [rowIds, rows_insert]

theorem mem_rowIds_deleteUpTo {t : Table β} {n i : ℕ} :
    i ∈ (t.deleteUpTo n).rowIds ↔ i ∈ t.rowIds ∧ n < i := by
  rw [rowIds, rows_deleteUpTo, rowIds, List.mem_map, List.mem_map]
  constructor
  · rintro ⟨r, hr, rfl⟩
    exact ⟨⟨r, (mem_after.mp hr).1, rfl⟩, (mem_after.mp hr).2⟩
  · rintro ⟨⟨r, hr, rfl⟩, hn⟩
    exact ⟨r, mem_after.mpr ⟨hr, hn⟩, rfl⟩

/-- The ids up to the row that a scan finds next. -/
theorem mem_rowIds_of_next {t : Table β} {n : ℕ} {r : Row β} (h : t.next n = some r) (i : ℕ) :
    i ∈ t.rowIds ∧ i ≤ r.rowId ↔ i ∈ t.rowIds ∧ i ≤ n ∨ i = r.rowId := by
  obtain ⟨hr, hafter⟩ := after_of_next h
  have hn : n < r.rowId := (mem_after.mp (hafter ▸ List.mem_cons_self : r ∈ t.after n)).2
  constructor
  · rintro ⟨hi, hle⟩
    by_cases hin : i ≤ n
    · exact .inl ⟨hi, hin⟩
    · obtain ⟨x, hx, rfl⟩ := List.mem_map.mp hi
      have hmem : x ∈ t.after n := mem_after.mpr ⟨hx, by omega⟩
      rw [hafter] at hmem
      rcases List.mem_cons.mp hmem with rfl | hmem
      · exact .inr rfl
      · exact absurd (mem_after.mp hmem).2 (Nat.not_lt.mpr hle)
  · rintro (⟨hi, hle⟩ | rfl)
    · exact ⟨hi, hle.trans hn.le⟩
    · exact ⟨List.mem_map_of_mem hr, le_rfl⟩

theorem matched_eq_zero_iff {t : Table β} {p : β → Bool} :
    t.matched p = 0 ↔ ∀ r ∈ t.rows, ¬ p r.val := by
  simp [matched]

theorem matched_insert (t : Table β) (p : β → Bool) (v : β) :
    (t.insert v).matched p = t.matched p + if p v then 1 else 0 := by
  rw [matched, rows_insert, List.countP_append]
  simp [matched, List.countP_singleton]

/-- An `UPDATE` that leaves the columns in question matches as many rows as before. -/
theorem matched_update (t : Table β) {p q : β → Bool} {f : β → β} (hf : ∀ v, p (f v) = p v) :
    (t.update q f).matched p = t.matched p := by
  rw [matched, rows_update, List.countP_map, matched]
  refine List.countP_congr fun r _ => ?_
  simp only [Function.comp_apply, Row.set]
  split_ifs
  · rw [hf]
  · rfl

theorem matched_deleteUpTo_le (t : Table β) (p : β → Bool) (n : ℕ) :
    (t.deleteUpTo n).matched p ≤ t.matched p :=
  List.filter_sublist.countP_le

/-- An `UPDATE` that matches no row changes nothing. -/
theorem update_of_matched_eq_zero {t : Table β} {p : β → Bool} (h : t.matched p = 0) (f : β → β) :
    t.update p f = t := by
  apply Table.ext
  have hset : ∀ r ∈ t.rows, Row.set p f r = r := fun r hr => by
    rw [Row.set, if_neg (matched_eq_zero_iff.mp h r hr)]
  rw [rows_update, List.map_congr_left hset, List.map_id']

end Table

end Sql
