import Petunia.Default.SharedConnection
import Petunia.Lib.Exceptions
import Petunia.Lib.Ownership

set_option autoImplicit false

/-!
# Prepared statements and their handles

`CppSQLite3.cpp` wraps the statements that SQLite prepares: a `CppSQLite3Statement` owns one, a copy
takes it over, and a `CppSQLite3Query` owns one or refers to that of a statement. A statement that
has been finalized must not be used any more.

* `Handles`: the prepared statements, the connection, and the pointers to them;
* `sqlite3Prepare`, `sqlite3Step`, `sqlite3Reset`, `sqlite3Finalize`, `sqlite3Close`: SQLite, as far
  as pointers are concerned;
* `reset`, `stepDML`, `execQuery`, `nextRow`, `finalize`, …: the functions of `CppSQLite3.cpp`;
* `construct`, `sendCall`, `receiveCall`, `destruct`: what `IPCInternalMedium` does with them;
* `Evaluates`, `Uses`, **`uses_sendCall`**, **`wp_receiveCall`**: the calls only evaluate statements,
  unless `nextRow` fails (`wp_nextRow_fails`).
-/

namespace Petunia

/-- How the last evaluation of a prepared statement has ended, since it was reset. -/
inductive Evaluation
  | reset
  | row
  | done
  | failed
  deriving DecidableEq

/-- The statements of `IPCInternalMedium`, in the order of their declaration. -/
inductive Member
  | beginTransaction
  | commitTransaction
  | insertMessage
  | updateMessage
  | deleteOldMessages
  | selectMessages
  deriving DecidableEq

/-- All of them. -/
def Member.all : List Member :=
  [.beginTransaction, .commitTransaction, .insertMessage, .updateMessage, .deleteOldMessages,
    .selectMessages]

/-- What owns a prepared statement: a member, the statement that `compileStatement` returns, or the
query of `execScalar`. -/
inductive Handle
  | member (m : Member)
  | temporary
  | scalar
  deriving DecidableEq

/-- A connection with its prepared statements, and the pointers to them. -/
structure Handles where
  /-- The last evaluations of the statements that are not finalized. -/
  vms : ℕ → Option Evaluation
  /-- How many statements have been prepared. -/
  prepared : ℕ
  /-- SQLite has not closed the connection. -/
  connection : Bool
  /-- `mpDB` of `m_ipc_database` is not null. -/
  db : Bool
  /-- `mpVM` of an owner. -/
  slot : Handle → Option ℕ
  /-- `mpVM` of `received_messages`, which does not own it. -/
  query : Option ℕ
  /-- Whether the next calls of SQLite fail; those beyond the list do not. -/
  faults : List Bool

namespace Handles

open Call

/-- Before the constructor. -/
def init (faults : List Bool) : Handles :=
  ⟨fun _ => none, 0, false, false, fun _ => none, none, faults⟩

/-- Whether the next call of SQLite fails. -/
def fault : Call Handles Bool := fun s =>
  .returned (s.faults.headD false) { s with faults := s.faults.tail }

/-! ## SQLite -/

/-- A pointer to a finalized statement is not to be used. -/
def deref (i : ℕ) : Call Handles Evaluation := fun s =>
  match s.vms i with
  | none => .undefined
  | some e => .returned e s

/-- The statement `i` has been evaluated, or finalized. -/
def evaluated (s : Handles) (i : ℕ) (e : Option Evaluation) : Handles :=
  { s with vms := Function.update s.vms i e }

/-- The owner `h` refers to nothing any more. -/
def emptied (s : Handles) (h : Handle) : Handles :=
  { s with slot := Function.update s.slot h none }

/-- `h'` has taken over the statement `i` of `h`. -/
def moved (s : Handles) (h h' : Handle) (i : ℕ) : Handles :=
  { s.emptied h with slot := Function.update (s.emptied h).slot h' (some i) }

/-- `sqlite3_prepare`. -/
def sqlite3Prepare : Call Handles (Option ℕ) := do
  if ← fault then
    pure none
  else
    let s ← Call.get
    Call.modify fun s => { s.evaluated s.prepared (some .reset) with prepared := s.prepared + 1 }
    pure (some s.prepared)

/-- `sqlite3_step`. -/
def sqlite3Step (i : ℕ) (e : Evaluation) : Call Handles Unit := do
  let _ ← deref i
  Call.modify fun s => s.evaluated i (some e)

/-- `sqlite3_reset`; it returns `SQLITE_OK` unless the last evaluation failed. -/
def sqlite3Reset (i : ℕ) : Call Handles Bool := do
  let e ← deref i
  Call.modify fun s => s.evaluated i (some .reset)
  pure (e ≠ .failed)

/-- `sqlite3_finalize`; it returns `SQLITE_OK` unless the last evaluation failed. -/
def sqlite3Finalize (i : ℕ) : Call Handles Bool := do
  let e ← deref i
  Call.modify fun s => s.evaluated i none
  pure (e ≠ .failed)

/-- `sqlite3_close`; with unfinalized statements the connection stays open. -/
def sqlite3Close : Call Handles Unit :=
  Call.modify fun s =>
    { s with connection := s.connection && decide (∃ i < s.prepared, s.vms i ≠ none) }

/-! ## `CppSQLite3.cpp` -/

/-- `CppSQLite3Statement::checkVM`. -/
def checkVM (h : Handle) : Call Handles ℕ := do
  match (← Call.get).slot h with
  | none => Call.throw
  | some i => pure i

/-- `CppSQLite3Statement::reset`. -/
def reset (h : Handle) : Call Handles Unit := do
  match (← Call.get).slot h with
  | none => pure ()
  | some i =>
    let ok ← sqlite3Reset i
    if ok then pure () else Call.throw

/-- `CppSQLite3Statement::finalize`, and `CppSQLite3Query::finalize` of an owner. -/
def finalize (h : Handle) : Call Handles Unit := do
  match (← Call.get).slot h with
  | none => pure ()
  | some i =>
    let ok ← sqlite3Finalize i
    Call.modify fun s => s.emptied h
    if ok then pure () else Call.throw

/-- `CppSQLite3Statement::bind`; SQLite refuses it for a statement that is not reset. -/
def bind (h : Handle) : Call Handles Unit := do
  let i ← checkVM h
  let e ← deref i
  let failed ← fault
  if failed = true ∨ e ≠ .reset then Call.throw else pure ()

/-- `CppSQLite3Statement::execDML`, up to `sqlite3_changes`. -/
def stepDML (h : Handle) : Call Handles Unit := do
  let i ← checkVM h
  if ← fault then
    sqlite3Step i .failed
    let _ ← sqlite3Reset i
    Call.throw
  else
    sqlite3Step i .done

/-- `CppSQLite3Statement::execDML`, after `sqlite3_changes`. -/
def finishDML (h : Handle) : Call Handles Unit := do
  let i ← checkVM h
  let ok ← sqlite3Reset i
  if ok then pure () else Call.throw

/-- `CppSQLite3Statement::execDML`. -/
def execDML (h : Handle) : Call Handles Unit := do
  stepDML h
  finishDML h

/-- `CppSQLite3Statement::execQuery` of `m_select_messages_stmt`, for `received_messages`. -/
def execQuery (found : Bool) : Call Handles Unit := do
  let i ← checkVM (.member .selectMessages)
  if ← fault then
    sqlite3Step i .failed
    let _ ← sqlite3Reset i
    Call.throw
  else
    sqlite3Step i (if found then .row else .done)
    Call.modify fun s => { s with query := some i }

/-- `CppSQLite3Query::checkVM` of `received_messages`. -/
def checkQuery : Call Handles ℕ := do
  match (← Call.get).query with
  | none => Call.throw
  | some i => pure i

/-- `CppSQLite3Query::nextRow` of `received_messages`. -/
def nextRow (found : Bool) : Call Handles Unit := do
  let i ← checkQuery
  if ← fault then
    sqlite3Step i .failed
    let _ ← sqlite3Finalize i
    Call.modify fun s => { s with query := none }
    Call.throw
  else
    sqlite3Step i (if found then .row else .done)

/-- `CreateMessageFromRow`, which reads the columns and may fail to allocate. -/
def createMessageFromRow : Call Handles Unit := do
  let i ← checkQuery
  let _ ← deref i
  if ← fault then Call.throw else pure ()

/-- `CppSQLite3DB::open`; SQLite hands out a connection also when it fails. -/
def openDatabase : Call Handles Unit := do
  let failed ← fault
  Call.modify fun s => { s with connection := true, db := true }
  if failed then Call.throw else pure ()

/-- `CppSQLite3DB::execDML`. -/
def execDMLDatabase : Call Handles Unit := do
  if ← fault then Call.throw else pure ()

/-- `CppSQLite3DB::close`. -/
def close : Call Handles Unit := do
  if (← Call.get).db then
    sqlite3Close
    Call.modify fun s => { s with db := false }
  else
    pure ()

/-- `CppSQLite3DB::compile`, for the object `h`. -/
def compile (h : Handle) : Call Handles ℕ := do
  match ← sqlite3Prepare with
  | none => Call.throw
  | some i =>
    Call.modify fun s => { s with slot := Function.update s.slot h (some i) }
    pure i

/-- `m = m_ipc_database.compileStatement(…)`: the assignment takes the statement over. -/
def compileStatement (m : Member) : Call Handles Unit := do
  let i ← compile .temporary
  Call.modify fun s => s.moved .temporary (.member m) i
  swallow (finalize .temporary)

/-- `CppSQLite3DB::execScalar`. -/
def execScalar : Call Handles Unit := do
  let i ← compile .scalar
  if ← fault then
    sqlite3Step i .failed
    let _ ← sqlite3Finalize i
    Call.modify fun s => s.emptied .scalar
    Call.throw
  else
    sqlite3Step i .row
    let _ ← deref i
    swallow (finalize .scalar)

/-! ## `IPCInternalMedium` -/

/-- `InitializeDatabase`: the four `PRAGMA`s, `tableExists`, the four `CREATE`s, and
`CreateStatements`. -/
def initializeDatabase (databaseAlreadyCreated : Bool) : Call Handles Unit := do
  openDatabase
  (List.range 4).forM fun _ => execDMLDatabase
  execScalar
  if databaseAlreadyCreated then pure () else (List.range 4).forM fun _ => execDMLDatabase
  Member.all.forM compileStatement

/-- The destructors of the members, in the reverse order of their declaration. -/
def destroyMembers : Call Handles Unit := do
  Member.all.reverse.forM fun m => swallow (finalize (.member m))
  close

/-- The constructor. -/
def construct (databaseAlreadyCreated : Bool) : Call Handles Unit :=
  onThrow (initializeDatabase databaseAlreadyCreated) destroyMembers

/-- The destructor. -/
def destruct : Call Handles Unit := do
  Member.all.forM fun m => finalize (.member m)
  close
  destroyMembers

/-- A statement that takes no values. -/
def execute (m : Member) : Call Handles Unit := do
  reset (.member m)
  execDML (.member m)

/-- The type, the size and the data of a message are bound. -/
def bindMessage (m : Member) : Call Handles Unit := do
  reset (.member m)
  bind (.member m)
  bind (.member m)
  bind (.member m)

/-- The next call of `SendMessages`, by its program counter. -/
def sendCall : SendPc → Call Handles Unit
  | .begin => execute .beginTransaction
  | .update => do
    bindMessage .updateMessage
    stepDML (.member .updateMessage)
  | .changes => finishDML (.member .updateMessage)
  | .insert => do
    bindMessage .insertMessage
    execDML (.member .insertMessage)
  | .commit => execute .commitTransaction
  | .returned _ | .failed _ => pure ()

/-- The next call of `ReceiveMessages`; `found` says whether the scan finds a further row. -/
def receiveCall (found : Bool) : ReceivePc → Call Handles Unit
  | .scan 0 => do
    reset (.member .selectMessages)
    execQuery found
    if found then createMessageFromRow else pure ()
  | .scan (_ + 1) => do
    nextRow found
    if found then createMessageFromRow else pure ()
  | .begin _ => execute .beginTransaction
  | .delete _ => do
    reset (.member .deleteOldMessages)
    bind (.member .deleteOldMessages)
    execDML (.member .deleteOldMessages)
  | .commit => execute .commitTransaction
  | .returned _ | .failed _ => pure ()

/-! ## What the calls do to the pointers -/

/-- No failed evaluation is left. -/
def Settled (s : Handles) : Prop := ∀ i, s.vms i ≠ some .failed

/-- Every pointer refers to a statement that is not finalized; `U` allows exceptions. -/
structure Valid (U : Prop) (s : Handles) : Prop where
  settled : s.Settled
  slot (h : Handle) (i : ℕ) (hi : s.slot h = some i) (hv : s.vms i = none) : U
  query (i : ℕ) (hi : s.query = some i) (hv : s.vms i = none) : U

/-- Statements have been evaluated. -/
structure Evaluates (s t : Handles) : Prop where
  slot : t.slot = s.slot
  live (i : ℕ) : t.vms i = none ↔ s.vms i = none
  prepared : s.prepared ≤ t.prepared
  connection : t.connection = s.connection
  db : t.db = s.db
  settled : t.Settled

/-- Statements have been evaluated, and `received_messages` is as before. -/
def Keeps (s t : Handles) : Prop := s.Evaluates t ∧ t.query = s.query

theorem Evaluates.refl {s : Handles} (hs : s.Settled) : s.Evaluates s :=
  ⟨rfl, fun _ => Iff.rfl, le_rfl, rfl, rfl, hs⟩

theorem Evaluates.trans {s t u : Handles} (h : s.Evaluates t) (h' : t.Evaluates u) :
    s.Evaluates u where
  slot := h'.slot.trans h.slot
  live i := (h'.live i).trans (h.live i)
  prepared := h.prepared.trans h'.prepared
  connection := h'.connection.trans h.connection
  db := h'.db.trans h.db
  settled := h'.settled

theorem Keeps.refl {s : Handles} (hs : s.Settled) : s.Keeps s := ⟨.refl hs, rfl⟩

theorem Keeps.trans {s t u : Handles} (h : s.Keeps t) (h' : t.Keeps u) : s.Keeps u :=
  ⟨h.1.trans h'.1, h'.2.trans h.2⟩

theorem Keeps.withFaults {s t : Handles} (h : s.Keeps t) (faults : List Bool) :
    s.Keeps { t with faults } :=
  ⟨⟨h.1.slot, h.1.live, h.1.prepared, h.1.connection, h.1.db, h.1.settled⟩, h.2⟩

/-- The pointers of `t` are those of `s`, or `received_messages` refers to an owned statement. -/
theorem Evaluates.valid {U : Prop} {s t : Handles} (h : s.Evaluates t) (hs : s.Valid U)
    (hq : t.query = s.query ∨ t.query = s.slot (.member .selectMessages)) : t.Valid U where
  settled := h.settled
  slot k i hi hv := hs.slot k i (h.slot ▸ hi) ((h.live i).mp hv)
  query i hi hv := by
    rcases hq with hq | hq
    · exact hs.query i (hq ▸ hi) ((h.live i).mp hv)
    · exact hs.slot _ i (hq ▸ hi) ((h.live i).mp hv)

/-- `p` only evaluates statements, whether it returns or throws. -/
def Uses {α : Type} (U : Prop) (p : Call Handles α) : Prop :=
  ∀ s : Handles, s.Valid U → wp U p (fun _ => s.Keeps) s.Keeps s

/-! ### SQLite -/

section Sqlite

variable {U : Prop} {s : Handles} {i : ℕ}

@[simp] theorem wp_fault {Q : Bool → Handles → Prop} {E : Handles → Prop} :
    wp U fault Q E s ↔ Q (s.faults.headD false) { s with faults := s.faults.tail } := Iff.rfl

theorem wp_deref {Q : Evaluation → Handles → Prop} {E : Handles → Prop} (hU : s.vms i = none → U)
    (hQ : ∀ e, s.vms i = some e → Q e s) : wp U (deref i) Q E s := by
  unfold wp deref
  cases hi : s.vms i with
  | none => exact hU hi
  | some e => exact hQ e hi

theorem evaluated_evaluated (e e' : Option Evaluation) :
    (s.evaluated i e).evaluated i e' = s.evaluated i e' := by
  simp only [evaluated, Function.update_idem]

theorem vms_evaluated (e : Option Evaluation) (j : ℕ) :
    (s.evaluated i e).vms j = if j = i then e else s.vms j := by
  simp only [evaluated, Function.update_apply]

theorem keeps_evaluated {e e' : Evaluation} (hs : s.Settled) (hi : s.vms i = some e)
    (he : e' ≠ .failed) : s.Keeps (s.evaluated i (some e')) := by
  refine ⟨⟨rfl, fun j => ?_, le_rfl, rfl, rfl, fun j => ?_⟩, rfl⟩
  · rw [vms_evaluated]
    split_ifs with hj
    · rw [hj, hi]
      exact iff_of_false nofun nofun
    · rfl
  · rw [vms_evaluated]
    split_ifs
    · exact fun h => he (Option.some.inj h)
    · exact hs j

theorem wp_sqlite3Reset {Q : Bool → Handles → Prop} {E : Handles → Prop}
    (hU : s.vms i = none → U) (hQ : ∀ e, s.vms i = some e →
      Q (e ≠ .failed) (s.evaluated i (some .reset))) :
    wp U (sqlite3Reset i) Q E s := by
  unfold sqlite3Reset
  rw [wp_bind]
  exact wp_deref hU fun e he => hQ e he

theorem wp_sqlite3Step {e' : Evaluation} {Q : Unit → Handles → Prop} {E : Handles → Prop}
    (hU : s.vms i = none → U) (hQ : ∀ e, s.vms i = some e → Q () (s.evaluated i (some e'))) :
    wp U (sqlite3Step i e') Q E s := by
  unfold sqlite3Step
  rw [wp_bind]
  exact wp_deref hU fun e he => hQ e he

theorem wp_sqlite3Finalize {Q : Bool → Handles → Prop} {E : Handles → Prop}
    (hU : s.vms i = none → U) (hQ : ∀ e, s.vms i = some e →
      Q (e ≠ .failed) (s.evaluated i none)) :
    wp U (sqlite3Finalize i) Q E s := by
  unfold sqlite3Finalize
  rw [wp_bind]
  exact wp_deref hU fun e he => hQ e he

end Sqlite

/-! ### The functions of `CppSQLite3.cpp` -/

section Uses

variable {U : Prop} {α β : Type}

theorem uses_pure (a : α) : Uses U (pure a) := fun _ hs => .refl hs.settled

theorem uses_throw : Uses U (Call.throw : Call Handles α) := fun _ hs => .refl hs.settled

/-- The next call is another one. -/
theorem keeps_tail {s : Handles} (hs : s.Settled) : s.Keeps { s with faults := s.faults.tail } :=
  ⟨⟨rfl, fun _ => Iff.rfl, le_rfl, rfl, rfl, hs⟩, rfl⟩

theorem uses_fault : Uses U fault := fun _ hs => keeps_tail hs.settled

theorem Uses.bind {p : Call Handles α} {f : α → Call Handles β} (hp : Uses U p)
    (hf : ∀ a, Uses U (f a)) : Uses U (p >>= f) := by
  intro s hs
  rw [wp_bind]
  refine wp_mono (hp s hs) id (fun a t ht => ?_) fun t ht => ht
  exact wp_mono (hf a t (ht.1.valid hs (.inl ht.2))) id (fun _ u hu => ht.trans hu)
    fun u hu => ht.trans hu

theorem Uses.ite {c : Prop} [Decidable c] {p q : Call Handles α} (hp : Uses U p)
    (hq : Uses U q) : Uses U (if c then p else q) := by
  split_ifs
  · exact hp
  · exact hq

theorem wp_checkVM {s : Handles} {h : Handle} {Q : ℕ → Handles → Prop} {E : Handles → Prop}
    (hE : s.slot h = none → E s) (hQ : ∀ i, s.slot h = some i → Q i s) :
    wp U (checkVM h) Q E s := by
  unfold checkVM
  rw [wp_bind, wp_get]
  cases hk : s.slot h with
  | none => exact hE hk
  | some i => exact hQ i hk

theorem wp_checkQuery {s : Handles} {Q : ℕ → Handles → Prop} {E : Handles → Prop}
    (hE : s.query = none → E s) (hQ : ∀ i, s.query = some i → Q i s) :
    wp U checkQuery Q E s := by
  unfold checkQuery
  rw [wp_bind, wp_get]
  cases hk : s.query with
  | none => exact hE hk
  | some i => exact hQ i hk

/-- A settled statement is reset. -/
theorem wp_reset_settled {s : Handles} {i : ℕ} (hs : s.Settled) (hU : s.vms i = none → U) :
    wp U (sqlite3Reset i >>= fun ok => if ok then pure () else Call.throw)
      (fun _ => s.Keeps) s.Keeps s := by
  rw [wp_bind]
  refine wp_sqlite3Reset hU fun e he => ?_
  have hne : e ≠ .failed := fun h => hs i (h ▸ he)
  rw [if_pos (decide_eq_true hne)]
  exact keeps_evaluated hs he nofun

theorem uses_reset (h : Handle) : Uses U (reset h) := by
  intro s hs
  unfold reset
  rw [wp_bind, wp_get]
  cases hk : s.slot h with
  | none => exact .refl hs.settled
  | some i => exact wp_reset_settled hs.settled (hs.slot h i hk)

theorem uses_finishDML (h : Handle) : Uses U (finishDML h) := by
  intro s hs
  unfold finishDML
  rw [wp_bind]
  apply wp_checkVM
  · exact fun _ => .refl hs.settled
  · exact fun i hk => wp_reset_settled hs.settled (hs.slot h i hk)

theorem uses_bind (h : Handle) : Uses U (bind h) := by
  intro s hs
  unfold Handles.bind
  rw [wp_bind]
  apply wp_checkVM
  · exact fun _ => .refl hs.settled
  · intro i hk
    rw [wp_bind]
    refine wp_deref (hs.slot h i hk) fun e _ => ?_
    exact (uses_fault.bind fun _ => uses_throw.ite (uses_pure ())) s hs

theorem uses_createMessageFromRow : Uses U createMessageFromRow := by
  intro s hs
  unfold createMessageFromRow
  rw [wp_bind]
  apply wp_checkQuery
  · exact fun _ => .refl hs.settled
  · intro i hq
    rw [wp_bind]
    refine wp_deref (hs.query i hq) fun e _ => ?_
    exact (uses_fault.bind fun _ => uses_throw.ite (uses_pure ())) s hs

/-- **An evaluation** that fails is reset before the exception leaves. -/
theorem wp_evaluate {s : Handles} {i : ℕ} {p : Call Handles Unit} {Q : Unit → Handles → Prop}
    (hs : s.Settled) (hi : s.vms i = none → U)
    (hp : ∀ t : Handles, s.Keeps t → (t.vms i = none → U) → wp U p Q s.Keeps t) :
    wp U (do
        if ← fault then
          sqlite3Step i .failed
          let _ ← sqlite3Reset i
          Call.throw
        else p) Q s.Keeps s := by
  have hf := keeps_tail hs
  rw [wp_bind, wp_fault]
  split_ifs
  · rw [wp_bind]
    refine wp_sqlite3Step hi fun e he => ?_
    rw [wp_bind]
    refine wp_sqlite3Reset (fun h => ?_) fun _ _ => ?_
    · rw [vms_evaluated, if_pos rfl] at h
      cases h
    · rw [evaluated_evaluated]
      exact hf.trans (keeps_evaluated hf.1.settled he nofun)
  · exact hp _ hf hi

theorem wp_step_settled {s : Handles} {i : ℕ} {e' : Evaluation} (hs : s.Settled)
    (hi : s.vms i = none → U) (he : e' ≠ .failed) :
    wp U (sqlite3Step i e') (fun _ => s.Keeps) s.Keeps s :=
  wp_sqlite3Step hi fun _ h => keeps_evaluated hs h he

theorem uses_stepDML (h : Handle) : Uses U (stepDML h) := by
  intro s hs
  unfold stepDML
  rw [wp_bind]
  apply wp_checkVM
  · exact fun _ => .refl hs.settled
  · intro i hk
    refine wp_evaluate hs.settled (hs.slot h i hk) fun t ht hi => ?_
    exact wp_mono (wp_step_settled ht.1.settled hi nofun) id (fun _ u hu => ht.trans hu)
      fun u hu => ht.trans hu

theorem uses_execDML (h : Handle) : Uses U (execDML h) :=
  (uses_stepDML h).bind fun _ => uses_finishDML h

theorem rowOrDone_ne_failed (found : Bool) :
    (if found = true then Evaluation.row else .done) ≠ .failed := by
  cases found <;> nofun

/-- **`execQuery`** makes `received_messages` refer to the statement of the `SELECT`. -/
theorem wp_execQuery {s : Handles} {found : Bool} (hs : s.Valid U) :
    wp U (execQuery found)
      (fun _ t => s.Evaluates t ∧ t.query = s.slot (.member .selectMessages)) s.Keeps s := by
  unfold execQuery
  rw [wp_bind]
  apply wp_checkVM
  · exact fun _ => .refl hs.settled
  · intro i hk
    refine wp_evaluate hs.settled (hs.slot _ i hk) fun t ht hi => ?_
    rw [wp_bind]
    refine wp_sqlite3Step hi fun e he => ?_
    have hev := (ht.trans (keeps_evaluated ht.1.settled he (rowOrDone_ne_failed found))).1
    exact ⟨⟨hev.slot, hev.live, hev.prepared, hev.connection, hev.db, hev.settled⟩, hk.symm⟩

/-- `nextRow` that does not fail. -/
theorem wp_nextRow {s : Handles} {found : Bool} (hs : s.Valid U)
    (hf : s.faults.headD false = false) : wp U (nextRow found) (fun _ => s.Keeps) s.Keeps s := by
  unfold nextRow
  rw [wp_bind]
  apply wp_checkQuery
  · exact fun _ => .refl hs.settled
  · intro i hq
    rw [wp_bind, wp_fault, hf, if_neg Bool.false_ne_true]
    have hf := keeps_tail hs.settled
    exact wp_mono (wp_step_settled hf.1.settled (hs.query i hq) (rowOrDone_ne_failed found)) id
      (fun _ t ht => hf.trans ht) fun t ht => hf.trans ht

/-- **`nextRow` that fails** finalizes a statement that it does not own. -/
theorem wp_nextRow_fails {s : Handles} (found : Bool) {i : ℕ} (hs : s.Settled)
    (hq : s.query = some i) (hi : s.vms i = none → U) (hf : s.faults.headD false = true) :
    wp U (nextRow found) (fun _ _ => False)
      (fun t => t.slot = s.slot ∧ t.vms i = none ∧ t.Settled) s := by
  unfold nextRow
  rw [wp_bind]
  refine wp_checkQuery (fun h => nomatch hq.symm.trans h) fun j hj => ?_
  obtain rfl := Option.some.inj (hq.symm.trans hj)
  rw [wp_bind, wp_fault, hf, if_pos rfl, wp_bind]
  refine wp_sqlite3Step hi fun e _ => ?_
  rw [wp_bind]
  refine wp_sqlite3Finalize (fun h => ?_) fun _ _ => ?_
  · rw [vms_evaluated, if_pos rfl] at h
    cases h
  · rw [evaluated_evaluated]
    refine ⟨rfl, (vms_evaluated none i).trans (if_pos rfl), fun j => ?_⟩
    show (evaluated _ i none).vms j ≠ some .failed
    rw [vms_evaluated]
    split_ifs
    · nofun
    · exact hs j

/-! ### The calls of the two threads -/

theorem uses_execute (m : Member) : Uses U (execute m) :=
  (uses_reset _).bind fun _ => uses_execDML _

theorem uses_bindMessage (m : Member) : Uses U (bindMessage m) :=
  (uses_reset _).bind fun _ => (uses_bind _).bind fun _ => (uses_bind _).bind fun _ => uses_bind _

/-- **`SendMessages`** only evaluates statements. -/
theorem uses_sendCall (pc : SendPc) : Uses U (sendCall pc) := by
  cases pc with
  | begin => exact uses_execute _
  | update => exact (uses_bindMessage _).bind fun _ => uses_stepDML _
  | changes => exact uses_finishDML _
  | insert => exact (uses_bindMessage _).bind fun _ => uses_execDML _
  | commit => exact uses_execute _
  | returned _ => exact uses_pure ()
  | failed _ => exact uses_pure ()

/-- The next call is `nextRow`. -/
def ReadsNext (pc : ReceivePc) : Prop := ∃ n, pc = .scan (n + 1)

/-- After a call that scans, `received_messages` refers to the statement of the `SELECT`. -/
def QueryAfter (s : Handles) (pc : ReceivePc) (t : Handles) : Prop :=
  t.query = s.slot (.member .selectMessages) ∨ (t.query = s.query ∧ ∀ n, pc ≠ .scan n)

/-- **`ReceiveMessages`** only evaluates statements, as long as `nextRow` does not fail. -/
theorem wp_receiveCall {s : Handles} {found : Bool} {pc : ReceivePc} (hs : s.Valid U)
    (hf : ReadsNext pc → s.faults.headD false = false)
    (hq : ReadsNext pc → s.query = s.slot (.member .selectMessages)) :
    wp U (receiveCall found pc) (fun _ t => s.Evaluates t ∧ s.QueryAfter pc t) s.Evaluates s := by
  have hrow : Uses U (if found = true then createMessageFromRow else pure ()) :=
    uses_createMessageFromRow.ite (uses_pure ())
  have key {p : Call Handles Unit} (hp : Uses U p) (hpc : ∀ n, pc ≠ .scan n) :
      wp U p (fun _ t => s.Evaluates t ∧ s.QueryAfter pc t) s.Evaluates s :=
    wp_mono (hp s hs) id (fun _ _ ht => ⟨ht.1, .inr ⟨ht.2, hpc⟩⟩) fun _ ht => ht.1
  match pc with
  | .scan 0 =>
    rw [receiveCall, wp_bind]
    refine wp_mono (uses_reset _ s hs) id (fun _ t ht => ?_) fun t ht => ht.1
    have hts := ht.1.valid hs (.inl ht.2)
    rw [wp_bind]
    refine wp_mono (wp_execQuery hts) id (fun _ u hu => ?_) fun u hu => ht.1.trans hu.1
    have htu := ht.1.trans hu.1
    have hus := hu.1.valid hts (.inr hu.2)
    refine wp_mono (hrow u hus) id (fun _ v hv => ⟨htu.trans hv.1, .inl ?_⟩)
      fun v hv => htu.trans hv.1
    rw [hv.2, hu.2, ht.1.slot]
  | .scan (n + 1) =>
    rw [receiveCall, wp_bind]
    refine wp_mono (wp_nextRow hs (hf ⟨n, rfl⟩)) id (fun _ t ht => ?_) fun t ht => ht.1
    refine wp_mono (hrow t (ht.1.valid hs (.inl ht.2))) id
      (fun _ u hu => ⟨ht.1.trans hu.1, .inl ?_⟩) fun u hu => ht.1.trans hu.1
    rw [hu.2, ht.2, hq ⟨n, rfl⟩]
  | .begin _ => exact key (uses_execute _) nofun
  | .delete _ =>
    exact key ((uses_reset _).bind fun _ => (uses_bind _).bind fun _ => uses_execDML _) nofun
  | .commit => exact key (uses_execute _) nofun
  | .returned _ => exact key (uses_pure ()) nofun
  | .failed _ => exact key (uses_pure ()) nofun

end Uses

end Handles

end Petunia
