import Mathlib.Logic.Basic
import Mathlib.Data.Nat.Notation

set_option autoImplicit false

/-!
# One connection to a SQL database

The state of a connection that several threads of a process share: the content as the connection
sees it, the content saved by an open transaction, and the number of rows changed by the most
recently completed `INSERT`, `UPDATE` or `DELETE`.

* `begin`, `commit`, `dml`: one call each; `BEGIN` fails inside an open transaction of the same
  connection, `COMMIT` outside one;
* `committed`: the content that other connections see.
-/

namespace Sql

/-- The errors of the calls modelled here. -/
inductive Error
  | nestedTransaction
  | noTransaction
  | tooBig
  deriving DecidableEq

/-- A connection: its content, the content before the open transaction, the change counter. -/
structure Connection (δ : Type*) where
  db : δ
  saved : Option δ
  changes : ℕ
  deriving DecidableEq

namespace Connection

variable {δ : Type*}

/-- No transaction is open. -/
def autocommit (c : Connection δ) : Prop := c.saved = none

instance (c : Connection δ) : Decidable c.autocommit :=
  match h : c.saved with
  | none => isTrue h
  | some _ => isFalse fun h' => by rw [autocommit, h] at h'; cases h'

/-- `BEGIN TRANSACTION`. -/
def begin (c : Connection δ) : Except Error (Connection δ) :=
  match c.saved with
  | none => .ok { c with saved := some c.db }
  | some _ => .error .nestedTransaction

/-- `COMMIT`: everything that the connection has written becomes permanent. -/
def commit (c : Connection δ) : Except Error (Connection δ) :=
  match c.saved with
  | none => .error .noTransaction
  | some _ => .ok { c with saved := none }

/-- An `INSERT`, `UPDATE` or `DELETE` that leaves the content `d` and changes `n` rows. -/
def dml (c : Connection δ) (d : δ) (n : ℕ) : Connection δ := { c with db := d, changes := n }

/-- What other connections see. -/
def committed (c : Connection δ) : δ := c.saved.getD c.db

theorem begin_of_autocommit {c : Connection δ} (h : c.autocommit) :
    c.begin = .ok { c with saved := some c.db } := by
  unfold begin; rw [h]

theorem begin_of_not_autocommit {c : Connection δ} (h : ¬ c.autocommit) :
    c.begin = .error .nestedTransaction := by
  unfold begin
  cases hs : c.saved with
  | none => exact absurd hs h
  | some d => rfl

theorem commit_of_saved {c : Connection δ} {d : δ} (h : c.saved = some d) :
    c.commit = .ok { c with saved := none } := by
  unfold commit; rw [h]

/-- `COMMIT` leaves the content and the change counter. -/
theorem commit_eq_ok {c c' : Connection δ} (h : c.commit = .ok c') :
    c' = { c with saved := none } := by
  unfold commit at h
  split at h
  · cases h
  · exact (Except.ok.inj h).symm

end Connection

end Sql
