import Petunia.Lib.Run
import Petunia.Message
import Mathlib.Logic.Function.Basic

set_option autoImplicit false

/-!
# Opening a channel file

`InitializeDatabase` runs four `PRAGMA`s, looks for the table `to_client`, decides on the role,
creates the tables and the indexes if it did not find the table, and compiles the statements of the
endpoint. Nothing encloses these steps. Of the `PRAGMA`s only the first, `PRAGMA synchronous`, matters
here: it loads the schema into the connection. `tableExists` is prepared by `sqlite3_prepare`, and its
execution fails if the schema has changed since it was loaded; the other statements are compiled
against the schema of the file.

* `Schema`, `InitStatement.run`: the tables and indexes of the file, and one autocommitted statement;
* `createDatabase`, `createStatements`: the statements in the order of the source;
* `Opener`, `Opening`, `Opening.step`: two endpoints that open one file, under any interleaving;
* `Opening.Opened`: how the two runs should end.
-/

namespace Petunia

/-- The tables of a channel file. -/
inductive ChannelTable
  | toClient
  | toServer
  deriving DecidableEq

/-- The tables and the indexes that a file holds, each index by its table. -/
structure Schema where
  tables : ChannelTable → Bool
  indexes : ChannelTable → Bool
  /-- The number of changes. -/
  version : ℕ

/-- A new file. -/
def Schema.empty : Schema := ⟨fun _ => false, fun _ => false, 0⟩

/-- The statements that `CreateStatements` compiles. -/
inductive Statement
  | beginTransaction
  | commit
  | insertMessage (t : ChannelTable)
  | updateMessage (t : ChannelTable)
  | deleteOldMessages (t : ChannelTable)
  | selectMessages (t : ChannelTable)
  deriving DecidableEq

/-- The table that a statement names. -/
def Statement.table : Statement → Option ChannelTable
  | .beginTransaction | .commit => none
  | .insertMessage t | .updateMessage t | .deleteOldMessages t | .selectMessages t => some t

/-- What `InitializeDatabase` runs after it has looked for the table. -/
inductive InitStatement
  | createTable (t : ChannelTable)
  | createIndex (t : ChannelTable)
  | compile (statement : Statement)
  deriving DecidableEq

/-- One statement; `none` is an exception. -/
def InitStatement.run (schema : Schema) : InitStatement → Option Schema
  | .createTable t =>
    if schema.tables t then none
    else some { schema with
      tables := Function.update schema.tables t true
      version := schema.version + 1 }
  | .createIndex t =>
    if schema.tables t = true ∧ schema.indexes t = false then
      some { schema with
        indexes := Function.update schema.indexes t true
        version := schema.version + 1 }
    else none
  | .compile statement =>
    if ∀ t ∈ statement.table, schema.tables t = true then some schema else none

/-- The statement that a successful step has compiled. -/
def InitStatement.compiled : InitStatement → List Statement
  | .createTable _ | .createIndex _ => []
  | .compile statement => [statement]

/-- The `CREATE` statements. -/
def createDatabase : List InitStatement :=
  [.createTable .toClient, .createTable .toServer, .createIndex .toClient, .createIndex .toServer]

/-- The statements of an endpoint, by its role. -/
def statements (role : ConnectionRole) : List Statement :=
  if role = .server then
    [.beginTransaction, .commit, .insertMessage .toClient, .updateMessage .toClient,
      .deleteOldMessages .toServer, .selectMessages .toServer]
  else
    [.beginTransaction, .commit, .insertMessage .toServer, .updateMessage .toServer,
      .deleteOldMessages .toClient, .selectMessages .toClient]

/-- `CreateStatements`. -/
def createStatements (role : ConnectionRole) : List InitStatement :=
  (statements role).map .compile

/-- The role of an endpoint: `Auto` becomes `Server` if the file does not hold the table, else
`Client`. -/
def decideRole (databaseAlreadyCreated : Bool) : ConnectionRole → ConnectionRole
  | .auto => if databaseAlreadyCreated then .client else .server
  | .server => .server
  | .client => .client

/-! ## Two endpoints -/

/-- The two endpoints. -/
inductive Peer
  | first
  | second
  deriving DecidableEq

/-- The other endpoint. -/
def Peer.other : Peer → Peer
  | .first => .second
  | .second => .first

/-- What is still to be done of `InitializeDatabase`. -/
inductive Todo
  | pragmas
  /-- `tableExists`, with the version of the schema that has been loaded. -/
  | tableExists (loaded : ℕ)
  | run (statements : List InitStatement)
  deriving DecidableEq

/-- A run of `InitializeDatabase`. -/
structure Opener where
  connectionRole : ConnectionRole
  todo : Todo
  compiled : List Statement
  /-- An exception has ended the run. -/
  failed : Bool

namespace Opener

/-- The file is open. -/
def init (role : ConnectionRole) : Opener := ⟨role, .pragmas, [], false⟩

/-- An exception ends the run. -/
def fail (o : Opener) : Opener := { o with todo := .run [], failed := true }

/-- `tableExists("to_client")` and what follows from it. -/
def test (o : Opener) (databaseAlreadyCreated : Bool) : Opener :=
  let role := decideRole databaseAlreadyCreated o.connectionRole
  { o with
    connectionRole := role
    todo := .run ((if databaseAlreadyCreated then [] else createDatabase) ++ createStatements role) }

/-- One step of `InitializeDatabase`. -/
def step (o : Opener) (schema : Schema) : Option (Opener × Schema) :=
  match o.todo with
  | .pragmas => some ({ o with todo := .tableExists schema.version }, schema)
  | .tableExists loaded =>
    if loaded = schema.version then some (o.test (schema.tables .toClient), schema)
    else some (o.fail, schema)
  | .run [] => none
  | .run (statement :: todo) =>
    match statement.run schema with
    | none => some (o.fail, schema)
    | some schema =>
      some ({ o with todo := .run todo, compiled := o.compiled ++ statement.compiled }, schema)

/-- The tables that the next step looks for. -/
def looksFor (o : Opener) : List ChannelTable :=
  match o.todo with
  | .tableExists _ => [.toClient]
  | .run (.compile statement :: _) => statement.table.toList
  | _ => []

end Opener

/-- The file and the two runs. -/
structure Opening where
  schema : Schema
  openers : Peer → Opener

namespace Opening

/-- Both endpoints have opened a new file. -/
def init (roles : Peer → ConnectionRole) : Opening := ⟨.empty, fun x => .init (roles x)⟩

/-- One step of an endpoint. -/
def step (s : Opening) (x : Peer) : Option Opening :=
  ((s.openers x).step s.schema).map fun r => ⟨r.2, Function.update s.openers x r.1⟩

/-- Both runs have ended. -/
def Complete (s : Opening) : Prop := ∀ x, (s.openers x).todo = .run []

/-- Both endpoints have opened the channel, which is complete, and two `Auto` endpoints have become
a server and a client. -/
structure Opened (roles : Peer → ConnectionRole) (s : Opening) : Prop where
  failed (x : Peer) : (s.openers x).failed = false
  tables (t : ChannelTable) : s.schema.tables t = true
  indexes (t : ChannelTable) : s.schema.indexes t = true
  compiled (x : Peer) : (s.openers x).compiled = statements (s.openers x).connectionRole
  pair (h : ∀ x, roles x = .auto) :
    ∃ x, (s.openers x).connectionRole = .server ∧ (s.openers x.other).connectionRole = .client

end Opening

end Petunia
