import Mathlib.Data.List.Nodup
import Petunia.Default.Reception

set_option autoImplicit false

/-!
# An exception in `ReceiveMessages`, and the call after it

A SQLite call that throws has no effect, the exception leaves the inbox and the transaction as they
are, and `delete_reference_id` is lost with the stack frame.

* `Throw`: the calls that can throw, and the state in which `ReceiveMessages` is called again;
* `SafeToRetry`: the new call returns, and the inbox has got every row once;
* `exists_end`: the new call ends when the sender is idle;
* **`safeToRetry_iff`**: the throws after which a retry is safe.
-/

namespace Petunia

open CTypes Lts Sql

namespace Reception

/-- `ReceiveMessages` is called again on the inbox and the connection that a call has left. -/
def again (s : Reception) : Reception := { s with calls := { s.calls with receive := .scan 0 } }

/-- The exceptions of `ReceiveMessages`, each with the state in which it is called again. When the
step fails, `execQuery` resets its statement and `nextRow` finalizes it. -/
inductive Throw (s : Reception) : Reception → Prop
  | query (hp : s.receive = .scan 0) : Throw s s.again
  | nextRow {n : ℕ} (hp : s.receive = .scan n) (hn : 0 < n) :
    Throw s { s.again with finalized := true }
  | decode {n : ℕ} (hp : s.receive = .scan n) {r : Row (Tagged MessageRow)}
    (hr : s.incoming.next n = some r) : Throw s s.again
  | begin {n : ℕ} (hp : s.receive = .begin n) : Throw s s.again
  | delete {n : ℕ} (hp : s.receive = .delete n) : Throw s s.again
  | commit (hp : s.receive = .commit) : Throw s s.again

/-- The call that runs without its peer. -/
def alone (lim : Limits) (s : Reception) (_ : Unit) : Option Reception := step lim s .call

/-- Before the new call the sender has committed some batches. -/
def Meanwhile (lim : Limits) (w u : Reception) : Prop :=
  ∃ batches : List (List (Tagged Message)),
    exec (step lim) w (batches.map ReceptionAct.peerCommits) = some u

/-- **A retry is safe** in the state `w`, after a call made on the table `t` and the inbox `inbox`:
whatever the sender commits, the new call ends and does not fail; the inbox has got one message for
each row that the two calls have read, and among these rows every one that was in `t` or is
committed when the new call begins is there once. -/
structure SafeToRetry (lim : Limits) (inbox : List (Tagged Message)) (t : MessageTable)
    (w : Reception) : Prop where
  /-- The statement can be reset. -/
  usable : w.finalized = false
  ends : ∀ u, Meanwhile lim w u → ∃ v, Reaches (alone lim) u v ∧ v.receive.Finished
  once : ∀ u v, Meanwhile lim w u → Reaches (step lim) u v → v.receive.Finished →
    (∃ b, v.receive = .returned b) ∧ Logged inbox v ∧
      ∀ i, i ∈ t.rowIds ∨ i ∈ u.conn.committed.incoming.rowIds → v.readIds.count i = 1

variable {lim : Limits} {n : ℕ} {ids : List ℕ} {inbox : List (Tagged Message)} {t : MessageTable}

theorem logged_start (db : Tables) (changes : ℕ) (inbox : List (Tagged Message)) :
    Logged inbox (start db changes inbox) :=
  (List.append_nil inbox).symm

/-- Only `nextRow` does more than leave the call. -/
theorem Throw.eq_again {s w : Reception} (h : Throw s w)
    (hp : s.receive = .scan 0 ∨ s.receive = .commit) : w = s.again := by
  cases h with
  | query | decode | begin | delete | commit => rfl
  | nextRow hp' hn =>
    rw [hp'] at hp
    rcases hp with hp | hp
    · cases hp
      exact absurd hn (lt_irrefl 0)
    · cases hp

/-! ## A call without its peer -/

theorem alone_of_effect {s : Reception} {calls : Calls} (h : Calls.ReceiveEffect s.calls calls) :
    Reaches (alone lim) s { s with calls, read := s.read ++ s.calls.found } := by
  refine .single (a := ()) ?_
  rw [alone, step, Calls.receiveStep_iff.mpr h]
  rfl

/-- A call that pushes no row. -/
theorem alone_of_found_nil {s : Reception} {calls : Calls}
    (h : Calls.ReceiveEffect s.calls calls) (hf : s.calls.found = []) :
    Reaches (alone lim) s { s with calls } := by
  have hcall : Reaches (alone lim) s _ := alone_of_effect h
  rwa [read_of_found_nil hf] at hcall

theorem reaches_of_alone {s t : Reception} (h : Reaches (alone lim) s t) :
    Reaches (step lim) s t := by
  obtain ⟨as, h⟩ := h
  induction as generalizing s with
  | nil => cases h; exact .refl _
  | cons a as ih =>
    obtain ⟨u, hu, h⟩ := exec_cons_eq_some.mp h
    exact (Reaches.single (a := ReceptionAct.call) hu).trans (ih h)

/-- The scan has pushed `rows` and ended with the `delete_reference_id` `m`. -/
def scanned (s : Reception) (rows : List (Row (Tagged MessageRow))) (m : ℕ) : Reception where
  calls := { s.calls with
    inbox := s.calls.inbox ++ rows.map fun r => readRow r.val
    receive := if 0 < m then .begin m else .returned false }
  read := s.read ++ rows
  finalized := s.finalized

/-- One row has been pushed. -/
def pushRow (s : Reception) (r : Row (Tagged MessageRow)) : Reception where
  calls := { s.calls with inbox := s.calls.inbox ++ [readRow r.val], receive := .scan r.rowId }
  read := s.read ++ [r]
  finalized := s.finalized

theorem scanned_pushRow (s : Reception) (r : Row (Tagged MessageRow))
    (rows : List (Row (Tagged MessageRow))) (m : ℕ) :
    (s.pushRow r).scanned rows m = s.scanned (r :: rows) m := by
  simp only [scanned, pushRow, List.map_cons, List.append_assoc, List.singleton_append]

/-- **The scan**, to its end: it pushes the rows beyond the one it stands on. -/
theorem reaches_scanned {s : Reception} {rows : List (Row (Tagged MessageRow))}
    (hp : s.receive = .scan n) (hrows : s.incoming.after n = rows) :
    ∃ m, n ≤ m ∧ (rows ≠ [] → 0 < m) ∧ Reaches (alone lim) s (s.scanned rows m) := by
  induction rows generalizing s n with
  | nil =>
    have hr : s.incoming.next n = none := by rw [Table.next, hrows]; rfl
    have heof : Reaches (alone lim) s _ := alone_of_effect (.eof hp hr)
    rw [show s.calls.found = [] by simp [Calls.found, hp, hr]] at heof
    refine ⟨n, le_rfl, fun h => absurd rfl h, ?_⟩
    rwa [scanned, List.map_nil, List.append_nil]
  | cons r rows ih =>
    have hr : s.incoming.next n = some r := by rw [Table.next, hrows]; rfl
    have hrow : Reaches (alone lim) s _ := alone_of_effect (.row hp hr)
    rw [show s.calls.found = [r] by simp [Calls.found, hp, hr]] at hrow
    obtain ⟨hmem, hafter⟩ := Table.after_of_next hr
    rw [hrows] at hafter
    obtain ⟨m, hm, -, hrest⟩ := ih (s := s.pushRow r) rfl (List.cons.inj hafter).2.symm
    have hpos : 0 < r.rowId := s.incoming.pos r hmem
    have hn : n < r.rowId := (Table.mem_after.mp (hrows ▸ List.mem_cons_self)).2
    rw [scanned_pushRow] at hrest
    exact ⟨m, hn.le.trans hm, fun _ => hpos.trans_le hm, hrow.trans hrest⟩

variable (lim) in
/-- From the `BEGIN` on. -/
theorem exists_end_of_begin {s : Reception} (hp : s.receive = .begin n) :
    ∃ v, Reaches (alone lim) s v ∧ v.receive.Finished ∧ v.read = s.read ∧
      (¬ s.conn.autocommit → v.receive = .failed .nestedTransaction) := by
  have hfound : s.calls.found = [] := by simp [Calls.found, hp]
  by_cases ha : s.conn.autocommit
  · have hbegin : Reaches (alone lim) s _ := alone_of_found_nil (.begin hp ha) hfound
    have hdelete := hbegin.trans (alone_of_found_nil (.delete rfl) rfl)
    have hcommit := hdelete.trans
      (alone_of_found_nil (.commit rfl (Connection.commit_of_saved rfl)) rfl)
    exact ⟨_, hcommit, trivial, rfl, fun hn => absurd ha hn⟩
  · exact ⟨_, alone_of_found_nil (.nested hp ha) hfound, trivial, rfl, fun _ => rfl⟩

variable (lim) in
/-- **A call alone ends.** It pushes every row once more, and inside an open transaction its `BEGIN`
fails. -/
theorem exists_end {s : Reception} (hp : s.receive = .scan 0) :
    ∃ v, Reaches (alone lim) s v ∧ v.receive.Finished ∧ v.read = s.read ++ s.incoming.rows ∧
      (¬ s.conn.autocommit → s.incoming.rows ≠ [] → v.receive = .failed .nestedTransaction) := by
  obtain ⟨m, -, hm, hscan⟩ := reaches_scanned hp (Table.after_zero s.incoming)
  by_cases h0 : 0 < m
  · obtain ⟨v, hv, hend, hread, hfail⟩ :=
      exists_end_of_begin lim (s := s.scanned s.incoming.rows m) (if_pos h0)
    exact ⟨v, hscan.trans hv, hend, hread, fun hn _ => hfail hn⟩
  · have hend : (s.scanned s.incoming.rows m).receive = .returned false := if_neg h0
    exact ⟨_, hscan, by rw [hend]; trivial, rfl, fun _ hne => absurd (hm hne) h0⟩

/-! ## When a retry is safe -/

theorem finalized_reaches {s t : Reception} (h : Reaches (step lim) s t) :
    t.finalized = s.finalized := by
  obtain ⟨as, h⟩ := h
  refine exec_invariant (I := fun u => u.finalized = s.finalized) ?_ h rfl
  intro u a v hu hs
  cases a with
  | call =>
    obtain ⟨calls, -, rfl⟩ := Option.map_eq_some_iff.mp hs
    exact hu
  | peerCommits outbox =>
    obtain ⟨-, t, rfl, -⟩ := step_peerCommits hs
    exact hu

/-- What the commits before the new call leave. -/
theorem meanwhile_keeps {w u : Reception} (h : Meanwhile lim w u) :
    u.receive = w.receive ∧ u.readIds = w.readIds ∧ (w.conn.saved = none → u.conn.saved = none) ∧
      ∀ i ∈ w.incoming.rowIds, i ∈ u.incoming.rowIds := by
  obtain ⟨batches, h⟩ := h
  induction batches generalizing w with
  | nil => cases h; exact ⟨rfl, rfl, id, fun i hi => hi⟩
  | cons outbox batches ih =>
    obtain ⟨v, hv, h⟩ := exec_cons_eq_some.mp h
    obtain ⟨-, t, rfl, hle, hids⟩ := step_peerCommits hv
    obtain ⟨hp, hr, hs, hi⟩ := ih h
    refine ⟨hp, hr, fun hn => hs ?_, fun i hw => hi i ?_⟩
    · simp only [withIncoming, hn, Option.map_none]
    · exact (hids i (Table.le_lastId_of_mem_rowIds hw)).mpr hw

theorem reaches_of_meanwhile {w u : Reception} (h : Meanwhile lim w u) :
    Reaches (step lim) w u := by
  obtain ⟨batches, h⟩ := h
  exact ⟨_, h⟩

/-- An uncommitted `DELETE` keeps the sender from committing. -/
theorem meanwhile_locked {w u : Reception} (hw : w.conn.committed ≠ w.conn.db)
    (h : Meanwhile lim w u) : u = w := by
  obtain ⟨batches, h⟩ := h
  cases batches with
  | nil => cases h; rfl
  | cons outbox batches =>
    obtain ⟨v, hv, -⟩ := exec_cons_eq_some.mp h
    exact absurd (step_peerCommits hv).1 hw

/-- Nothing has been pushed before the first row. -/
theorem eq_nil_of_scan_zero {s : Reception} (h : Reading ids s) (hp : s.receive = .scan 0) :
    s.conn.saved = none ∧ s.readIds = [] ∧ ∀ i ∈ ids, i ∈ s.incoming.rowIds := by
  rw [Reading, hp] at h
  refine ⟨h.1, List.eq_nil_iff_forall_not_mem.mpr fun i hi => ?_, h.2.kept⟩
  obtain ⟨hmem, hle⟩ := (h.2.mem i).mp hi
  exact absurd (Table.pos_of_mem_rowIds hmem) (Nat.not_lt.mpr hle)

/-- **An exception before the first row is pushed**: the retry is a first call. -/
theorem safeToRetry_of_scan_zero {s : Reception} (h : Reading t.rowIds s) (hl : Logged inbox s)
    (hf : s.finalized = false) (hp : s.receive = .scan 0) : SafeToRetry lim inbox t s := by
  obtain ⟨hsaved, hread, hids⟩ := eq_nil_of_scan_zero h hp
  refine ⟨hf, fun u hu => ?_, fun u v hu hv hend => ?_⟩
  · obtain ⟨v, hv, hend, -⟩ := exists_end lim ((meanwhile_keeps hu).1.trans hp)
    exact ⟨v, hv, hend⟩
  · obtain ⟨hpu, hru, hsu, hiu⟩ := meanwhile_keeps hu
    have hreading : Reading u.incoming.rowIds v :=
      reading_reaches (reading_of_scan_zero (hpu.trans hp) (hsu hsaved) (hru.trans hread)) hv
    have hcommitted : u.conn.committed = u.conn.db := by
      rw [Connection.committed, hsu hsaved]; rfl
    cases hpv : v.receive with
    | returned b =>
      rw [Reading, hpv] at hreading
      refine ⟨⟨b, rfl⟩, logged_reaches (logged_reaches hl (reaches_of_meanwhile hu)) hv,
        fun i hi => List.count_eq_one_of_mem hreading.1 (hreading.2 i ?_)⟩
      rcases hi with hi | hi
      · exact hiu i (hids i hi)
      · rwa [hcommitted] at hi
    | failed e =>
      rw [Reading, hpv] at hreading
      exact hreading.elim
    | scan n | begin n | delete n | commit =>
      rw [hpv] at hend
      exact hend.elim

/-- A call that finds no row, while the sender cannot write. -/
theorem reaches_of_locked {w v : Reception} (hp : w.receive = .scan 0)
    (hrows : w.incoming.rows = []) (hlocked : w.conn.committed ≠ w.conn.db)
    (h : Reaches (step lim) w v) :
    v.readIds = w.readIds ∧ (v.receive = .scan 0 ∨ v.receive = .returned false) := by
  obtain ⟨as, h⟩ := h
  have hinv : v.conn = w.conn ∧ v.readIds = w.readIds ∧
      (v.receive = .scan 0 ∨ v.receive = .returned false) := by
    refine exec_invariant (I := fun v => v.conn = w.conn ∧ v.readIds = w.readIds ∧
      (v.receive = .scan 0 ∨ v.receive = .returned false)) ?_ h ⟨rfl, rfl, .inl hp⟩
    rintro u a u' ⟨hc, hr, hpu⟩ hs
    cases a with
    | peerCommits outbox => exact absurd (step_peerCommits hs).1 (hc ▸ hlocked)
    | call =>
      have hin : u.incoming = w.incoming := congrArg (fun c : Connection Tables => c.db.incoming) hc
      have hnext : u.incoming.next 0 = none := by
        rw [Table.next, Table.after_zero, hin, hrows]
        rfl
      obtain ⟨calls, hcalls, rfl⟩ := Option.map_eq_some_iff.mp hs
      rcases hpu with hpu | hpu
      · have hfound : u.calls.found = [] := by simp [Calls.found, hpu, hnext]
        have heof := Calls.receiveStep_iff.mpr (.eof hpu hnext)
        rw [hcalls] at heof
        cases heof
        rw [read_of_found_nil hfound]
        exact ⟨hc, hr, .inr rfl⟩
      · rw [Calls.receiveStep, show u.calls.receive = _ from hpu] at hcalls
        cases hcalls
  exact hinv.2

/-- **The `COMMIT` throws and no row lies behind those deleted**: the retry finds an empty table in
its own transaction, and the sender cannot write. -/
theorem safeToRetry_of_commit {s : Reception} (h : Reading t.rowIds s) (hl : Logged inbox s)
    (hf : s.finalized = false) (hp : s.receive = .commit) (hrows : s.incoming.rows = []) :
    SafeToRetry lim inbox t s.again := by
  have hlocked : s.conn.committed ≠ s.conn.db := committed_ne_db h hp
  rw [Reading, hp] at h
  obtain ⟨d, n, hd, hall, hin⟩ := h
  have hagain : ∀ u, Meanwhile lim s.again u → u = s.again :=
    fun u hu => meanwhile_locked (w := s.again) hlocked hu
  refine ⟨hf, fun u hu => ?_, fun u v hu hv hend => ?_⟩
  · rw [hagain u hu]
    obtain ⟨v, hv, hend, -⟩ := exists_end lim (s := s.again) rfl
    exact ⟨v, hv, hend⟩
  · rw [hagain u hu] at hv ⊢
    have hlv : Logged inbox v := logged_reaches (s := s.again) hl hv
    obtain ⟨hread, hpv⟩ := reaches_of_locked (w := s.again) rfl hrows hlocked hv
    rcases hpv with hpv | hpv
    · rw [hpv] at hend
      exact hend.elim
    · refine ⟨⟨false, hpv⟩, hlv, fun i hi => ?_⟩
      rw [hread]
      refine List.count_eq_one_of_mem hall.nodup ?_
      rcases hi with hi | hi
      · exact hall.mem_readIds hi
      · -- every committed row lies up to the last one that was read
        have hcommitted : s.again.conn.committed = d := by
          rw [Connection.committed, show s.again.conn.saved = some d from hd, Option.getD_some]
        have hid : i ∈ d.incoming.rowIds := hcommitted ▸ hi
        refine (hall.mem i).mpr ⟨hid, ?_⟩
        by_contra hn
        have hmem : i ∈ s.incoming.rowIds :=
          hin ▸ Table.mem_rowIds_deleteUpTo.mpr ⟨hid, Nat.lt_of_not_le hn⟩
        rw [Table.rowIds, hrows] at hmem
        cases hmem

theorem again_of_scan_zero {s : Reception} (hp : s.receive = .scan 0) : s.again = s := by
  rw [again, ← hp]

/-- A row that has been pushed is pushed again by a retry that finds it in the table. -/
theorem not_safeToRetry_of_pushed {w : Reception} {i : ℕ} (hp : w.receive = .scan 0)
    (hi : i ∈ w.readIds) (ht : i ∈ w.incoming.rowIds) (hc : i ∈ w.conn.committed.incoming.rowIds) :
    ¬ SafeToRetry lim inbox t w := by
  intro hsafe
  obtain ⟨v, hv, hend, hread, -⟩ := exists_end lim hp
  have hone := (hsafe.once w v ⟨[], rfl⟩ (reaches_of_alone hv) hend).2.2 i (.inr hc)
  have htwice : v.readIds = w.readIds ++ w.incoming.rowIds := by
    rw [readIds, hread, List.map_append]
    rfl
  rw [htwice, List.count_append] at hone
  have h1 := List.count_pos_iff.mpr hi
  have h2 := List.count_pos_iff.mpr ht
  omega

/-- **An exception after a row has been pushed**, outside a transaction. -/
theorem not_safeToRetry_of_readTo {s : Reception} (hs : s.conn.saved = none)
    (h : ReadTo ids s.incoming n s.readIds) (hn : 0 < n) : ¬ SafeToRetry lim inbox t s.again := by
  have hmem : n ∈ s.incoming.rowIds := h.last hn
  have hcommitted : s.again.conn.committed = s.conn.db := by
    rw [Connection.committed, show s.again.conn.saved = none from hs]
    rfl
  refine not_safeToRetry_of_pushed rfl ((h.mem n).mpr ⟨hmem, le_rfl⟩) hmem ?_
  rw [hcommitted]
  exact hmem

/-- A retry inside an open transaction fails when it has found a row. -/
theorem not_safeToRetry_of_open {w : Reception} {d : Tables} (hp : w.receive = .scan 0)
    (hs : w.conn.saved = some d) (hrows : w.incoming.rows ≠ []) : ¬ SafeToRetry lim inbox t w := by
  intro hsafe
  have ha : ¬ w.conn.autocommit := fun ha => Option.some_ne_none d (hs.symm.trans ha)
  obtain ⟨v, hv, hend, -, hfail⟩ := exists_end lim hp
  obtain ⟨b, hb⟩ := (hsafe.once w v ⟨[], rfl⟩ (reaches_of_alone hv) hend).1
  rw [hfail ha hrows] at hb
  cases hb

/-- **The throws after which a retry is not safe**: all others. -/
theorem receive_of_safeToRetry {s w : Reception} (h : Reading ids s) (hw : Throw s w)
    (hsafe : SafeToRetry lim inbox t w) :
    s.receive = .scan 0 ∨ s.receive = .commit ∧ s.incoming.rows = [] := by
  cases hw with
  | query hp => exact .inl hp
  | nextRow hp hn => exact Bool.noConfusion hsafe.usable
  | @decode n hp r hr =>
    rw [Reading, show s.receive = _ from hp] at h
    by_cases hn : 0 < n
    · exact absurd hsafe (not_safeToRetry_of_readTo h.1 h.2 hn)
    · rw [Nat.eq_zero_of_not_pos hn] at hp
      exact .inl hp
  | begin hp =>
    rw [Reading, show s.receive = _ from hp] at h
    obtain ⟨hs, hread⟩ := h
    exact absurd hsafe (not_safeToRetry_of_readTo hs hread.toReadTo hread.pos)
  | @delete n hp =>
    rw [Reading, show s.receive = _ from hp] at h
    obtain ⟨hs, hread⟩ := h
    have hne : s.incoming.rows ≠ [] := fun he => by
      have hmem := hread.last hread.pos
      rw [Table.rowIds, he] at hmem
      cases hmem
    exact absurd hsafe (not_safeToRetry_of_open rfl hs hne)
  | commit hp =>
    rw [Reading, hp] at h
    obtain ⟨d, n, hs, -, -⟩ := h
    by_cases hrows : s.incoming.rows = []
    · exact .inr ⟨hp, hrows⟩
    · exact absurd hsafe (not_safeToRetry_of_open rfl hs hrows)

/-- **When a retry is safe**: no row had been pushed yet, or it is the `COMMIT` that throws and no
row has been committed behind those that were read. -/
theorem safeToRetry_iff {db : Tables} {changes : ℕ} {inbox : List (Tagged Message)}
    {s w : Reception} (h : Reaches (step lim) (start db changes inbox) s) (hw : Throw s w) :
    SafeToRetry lim inbox db.incoming w ↔
      s.receive = .scan 0 ∨ s.receive = .commit ∧ s.incoming.rows = [] := by
  have hreading : Reading db.incoming.rowIds s :=
    reading_reaches (reading_start db changes inbox) h
  have hl : Logged inbox s := logged_reaches (logged_start db changes inbox) h
  have hf : s.finalized = false := finalized_reaches h
  constructor
  · exact receive_of_safeToRetry hreading hw
  · rintro (hp | ⟨hp, hrows⟩)
    · rw [hw.eq_again (.inl hp), again_of_scan_zero hp]
      exact safeToRetry_of_scan_zero hreading hl hf hp
    · rw [hw.eq_again (.inr hp)]
      exact safeToRetry_of_commit hreading hl hf hp hrows

/-- One row to be received. -/
def oneRow : Tables := ⟨.empty, Table.empty.insert ⟨0, cStr [116], 1, [7], by decide⟩⟩

/-- The first step of the scan throws. -/
theorem safeToRetry_iff_query :
    SafeToRetry .default [] oneRow.incoming (start oneRow 0 []).again :=
  (safeToRetry_iff (.refl _) (.query rfl)).mpr (.inl rfl)

/-- **The `BEGIN` throws after a row has been pushed**: the retry pushes it again. -/
theorem not_safeToRetry_begin :
    ∃ s, Reaches (step .default) (start oneRow 0 []) s ∧ s.receive = .begin 1 ∧
      Throw s s.again ∧
      (∃ v, Reaches (alone .default) s.again v ∧ v.receive = .returned true ∧
        v.calls.inbox = [⟨0, .new [116] [7]⟩, ⟨0, .new [116] [7]⟩]) ∧
      ¬ SafeToRetry .default [] oneRow.incoming s.again := by
  obtain ⟨s, hs, hp, hread, hin, hc, v, hv, hpv, hinbox⟩ : ∃ s ∈ exec (step .default)
      (start oneRow 0 []) [.call, .call], s.receive = .begin 1 ∧ 1 ∈ s.again.readIds ∧
      1 ∈ s.again.incoming.rowIds ∧ 1 ∈ s.again.conn.committed.incoming.rowIds ∧
      ∃ v ∈ exec (alone .default) s.again [(), (), (), (), ()], v.receive = .returned true ∧
        v.calls.inbox = [⟨0, .new [116] [7]⟩, ⟨0, .new [116] [7]⟩] := by decide +kernel
  exact ⟨s, ⟨_, hs⟩, hp, .begin hp, ⟨v, ⟨_, hv⟩, hpv, hinbox⟩,
    not_safeToRetry_of_pushed rfl hread hin hc⟩

end Reception

end Petunia
