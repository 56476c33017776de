import Petunia.Default.Opening

set_option autoImplicit false

/-!
# The folder of the channel files

Endpoints over the SQLite medium that are constructed and destroyed one after the other. Each opens
the file of its channel by its path, and the destructor of a server tries to remove the file; an
endpoint that has the file open keeps it.

* `initializeDatabase`: `InitializeDatabase` with nobody in between (`exec_initializeDatabase`: a run
  of `Opener.step`);
* `Folder`, `Folder.step`: the files by their paths, constructions and destructions;
* `Folder.Inv`, **`Folder.inv_step`**: a file that has a path holds the whole schema, and a new file
  is no endpoint's yet.
-/

namespace Petunia

open CTypes Lts

/-! ## One opening -/

/-- The statements in their order. -/
def runAll : List InitStatement → Schema → Option Schema
  | [], schema => some schema
  | st :: todo, schema => (st.run schema).bind (runAll todo)

/-- `InitializeDatabase`: the role and the schema; `none` is an exception. -/
def initializeDatabase (schema : Schema) (role : ConnectionRole) :
    Option (ConnectionRole × Schema) :=
  let databaseAlreadyCreated := schema.tables .toClient
  let role := decideRole databaseAlreadyCreated role
  (runAll ((if databaseAlreadyCreated then [] else createDatabase) ++ createStatements role)
    schema).map fun schema => (role, schema)

/-- Statements that succeed are a run of the endpoint. -/
theorem exec_runAll {todo : List InitStatement} : ∀ {o : Opener} {schema schema' : Schema},
    o.todo = .run todo → runAll todo schema = some schema' →
    exec (fun (p : Opener × Schema) () => p.1.step p.2) (o, schema) (.replicate todo.length ()) =
      some ({ o with
        todo := .run []
        compiled := o.compiled ++ todo.flatMap InitStatement.compiled }, schema') := by
  induction todo with
  | nil =>
    rintro ⟨role, todo, compiled, failed⟩ schema schema' ho h
    cases ho
    cases h
    simp
  | cons st todo ih =>
    intro o schema schema' ho h
    obtain ⟨schema₁, hst, h⟩ := Option.bind_eq_some_iff.mp h
    have h1 : o.step schema =
        some ({ o with todo := .run todo, compiled := o.compiled ++ st.compiled }, schema₁) := by
      simp only [Opener.step, ho, hst]
    rw [List.length_cons, List.replicate_succ, exec_cons, h1, Option.bind_some, ih rfl h]
    simp

/-- **`InitializeDatabase` is a run of the endpoint.** -/
theorem exec_initializeDatabase {schema schema' : Schema} {role role' : ConnectionRole}
    (h : initializeDatabase schema role = some (role', schema')) :
    ∃ n o, exec (fun (p : Opener × Schema) () => p.1.step p.2) (.init role, schema)
        (.replicate n ()) = some (o, schema') ∧
      o.todo = .run [] ∧ o.failed = false ∧ o.connectionRole = role' := by
  obtain ⟨schema₁, hrun, he⟩ := Option.map_eq_some_iff.mp h
  cases he
  have hr := exec_runAll (o := (Opener.init role).test (schema.tables .toClient)) rfl hrun
  -- the `PRAGMA`s, then `tableExists`, which finds the schema just loaded
  have hstart : exec (fun (p : Opener × Schema) () => p.1.step p.2) (.init role, schema) [(), ()] =
      some ((Opener.init role).test (schema.tables .toClient), schema) := by
    simp [exec_cons, Opener.step, Opener.init, Opener.test]
  exact ⟨2 + _, _, by rw [List.replicate_add]; exact exec_trans hstart hr, rfl, rfl, rfl⟩

/-- The whole schema. -/
def Schema.Complete (schema : Schema) : Prop :=
  ∀ t, schema.tables t = true ∧ schema.indexes t = true

/-- Statements are compiled if all tables exist. -/
theorem runAll_createStatements {schema : Schema} (h : schema.Complete) (role : ConnectionRole) :
    runAll (createStatements role) schema = some schema := by
  have hall : ∀ l : List Statement, runAll (l.map .compile) schema = some schema := by
    intro l
    induction l with
    | nil => rfl
    | cons st l ih =>
      rw [List.map_cons, runAll, InitStatement.run, if_pos fun t _ => (h t).1, Option.bind_some, ih]
  exact hall _

theorem runAll_append (todo todo' : List InitStatement) (schema : Schema) :
    runAll (todo ++ todo') schema = (runAll todo schema).bind (runAll todo') := by
  induction todo generalizing schema with
  | nil => rfl
  | cons st todo ih =>
    rw [List.cons_append, runAll, runAll, Option.bind_assoc]
    exact congrArg _ (funext ih)

/-- **A new file** gets the whole schema, and an `Auto` endpoint is the server. -/
theorem initializeDatabase_empty (role : ConnectionRole) : ∃ schema, schema.Complete ∧
    initializeDatabase .empty role = some (decideRole false role, schema) := by
  have hc : (Opening.schemaAfter 4).Complete := by
    rintro (_ | _) <;> exact ⟨rfl, rfl⟩
  refine ⟨Opening.schemaAfter 4, hc, ?_⟩
  have hrun : runAll createDatabase .empty = some (Opening.schemaAfter 4) := rfl
  show (runAll (createDatabase ++ createStatements (decideRole false role)) .empty).map _ = _
  rw [runAll_append, hrun, Option.bind_some, runAll_createStatements hc]
  rfl

/-- **A file with the whole schema** keeps it, and an `Auto` endpoint is the client. -/
theorem initializeDatabase_complete {schema : Schema} (h : schema.Complete) (role : ConnectionRole) :
    initializeDatabase schema role = some (decideRole true role, schema) := by
  rw [initializeDatabase, (h .toClient).1, if_pos rfl, List.nil_append, runAll_createStatements h]
  rfl

/-! ## The folder -/

/-- The path of the channel's file in the folder, as the C library reads it; the folder itself is
left out, and the suffix is `.ipc.db`. -/
def channelPath (channel : Bytes) : CString := cStr (channel ++ [46, 105, 112, 99, 46, 100, 98])

/-- A file, with the number of its creation. -/
structure ChannelFile where
  number : ℕ
  schema : Schema

/-- An endpoint over the SQLite medium: its channel, its role and the file that it has open. -/
structure FolderEndpoint where
  channel : Bytes
  connectionRole : ConnectionRole
  file : ℕ

/-- The table into which the endpoint inserts. -/
def FolderEndpoint.inserts (e : FolderEndpoint) : ChannelTable :=
  if e.connectionRole = .server then .toClient else .toServer

/-- The table from which the endpoint selects. -/
def FolderEndpoint.selects (e : FolderEndpoint) : ChannelTable :=
  if e.connectionRole = .server then .toServer else .toClient

/-- The files, and the endpoints by their order of construction. -/
structure Folder where
  files : CString → Option ChannelFile
  created : ℕ
  endpoints : List FolderEndpoint
  destroyed : List ℕ

/-- A construction or a destruction; `removed` is whether `remove` can remove the file. -/
inductive FolderAct
  | construct (channel : Bytes) (connectionRole : ConnectionRole)
  | destroy (i : ℕ) (removed : Bool)

namespace Folder

/-- No file and no endpoint. -/
def init : Folder := ⟨fun _ => none, 0, [], []⟩

/-- `open`: the file of the path, or a new one. -/
def openFile (s : Folder) (path : CString) : ChannelFile :=
  (s.files path).getD ⟨s.created, .empty⟩

/-- The constructor. -/
def construct (s : Folder) (channel : Bytes) (role : ConnectionRole) : Option Folder :=
  let path := channelPath channel
  let file := s.openFile path
  (initializeDatabase file.schema role).map fun r => { s with
    files := Function.update s.files path (some ⟨file.number, r.2⟩)
    created := if s.files path = none then s.created + 1 else s.created
    endpoints := s.endpoints ++ [⟨channel, r.1, file.number⟩] }

/-- The destructor, with the `TryDeleteChannel` of a server. -/
def destroy (s : Folder) (i : ℕ) (removed : Bool) : Option Folder :=
  s.endpoints[i]?.bind fun e =>
    if i ∈ s.destroyed then none
    else some { s with
      files := if e.connectionRole = .server ∧ removed = true then
        Function.update s.files (channelPath e.channel) none else s.files
      destroyed := i :: s.destroyed }

/-- One step. -/
def step (s : Folder) : FolderAct → Option Folder
  | .construct channel role => s.construct channel role
  | .destroy i removed => s.destroy i removed

/-- Files that have a path hold the whole schema, and all files in use have been created. -/
structure Inv (s : Folder) : Prop where
  complete : ∀ p f, s.files p = some f → f.schema.Complete
  files : ∀ p f, s.files p = some f → f.number < s.created
  endpoints : ∀ e ∈ s.endpoints, e.file < s.created

theorem inv_init : init.Inv := ⟨fun _ _ h => (by cases h), fun _ _ h => (by cases h),
  fun _ h => (by cases h)⟩

/-- A file after one path has changed. -/
theorem files_update {files : CString → Option ChannelFile} {p q : CString}
    {o : Option ChannelFile} {f : ChannelFile} (h : Function.update files p o q = some f) :
    o = some f ∨ files q = some f := by
  by_cases hq : q = p
  · subst hq
    rw [Function.update_self] at h
    exact .inl h
  · rw [Function.update_of_ne hq] at h
    exact .inr h

/-- **A construction**: it succeeds, and the file of the path decides on the role. -/
theorem construct_eq {s : Folder} (hi : s.Inv) (channel : Bytes) (role : ConnectionRole) :
    ∃ schema, schema.Complete ∧ s.construct channel role = some { s with
      files := Function.update s.files (channelPath channel)
        (some ⟨(s.openFile (channelPath channel)).number, schema⟩)
      created := if s.files (channelPath channel) = none then s.created + 1 else s.created
      endpoints := s.endpoints ++ [⟨channel, decideRole (s.files (channelPath channel)).isSome role,
        (s.openFile (channelPath channel)).number⟩] } := by
  cases hf : s.files (channelPath channel) with
  | none =>
    obtain ⟨schema, hc, hr⟩ := initializeDatabase_empty role
    refine ⟨schema, hc, ?_⟩
    simp [construct, openFile, hf, hr]
  | some f =>
    have hc := hi.complete _ f hf
    refine ⟨f.schema, hc, ?_⟩
    simp [construct, openFile, hf, initializeDatabase_complete hc role]

/-- **One step.** -/
theorem inv_step {s s' : Folder} {a : FolderAct} (hi : s.Inv) (h : s.step a = some s') :
    s'.Inv := by
  cases a with
  | construct channel role =>
    obtain ⟨schema, hc, he⟩ := construct_eq hi channel role
    rw [step, he] at h
    cases h
    have hn : (s.openFile (channelPath channel)).number <
        if s.files (channelPath channel) = none then s.created + 1 else s.created := by
      cases hf : s.files (channelPath channel) with
      | none => simp [openFile, hf]
      | some f => simpa [openFile, hf] using hi.files _ f hf
    have hle : s.created ≤
        if s.files (channelPath channel) = none then s.created + 1 else s.created := by
      split_ifs <;> omega
    refine ⟨fun p f hf => ?_, fun p f hf => ?_, fun e he => ?_⟩
    · rcases files_update hf with hf | hf
      · cases hf
        exact hc
      · exact hi.complete p f hf
    · rcases files_update hf with hf | hf
      · cases hf
        exact hn
      · exact (hi.files p f hf).trans_le hle
    · rcases List.mem_append.mp he with he | he
      · exact (hi.endpoints e he).trans_le hle
      · rw [List.mem_singleton.mp he]
        exact hn
  | destroy i removed =>
    obtain ⟨e, he, h⟩ := Option.bind_eq_some_iff.mp h
    split_ifs at h with hd hr
    · cases h
      have hsome : ∀ p f, Function.update s.files (channelPath e.channel) none p = some f →
          s.files p = some f := fun p f hf => (files_update hf).resolve_left nofun
      exact ⟨fun p f hf => hi.complete p f (hsome p f hf), fun p f hf => hi.files p f (hsome p f hf),
        hi.endpoints⟩
    · cases h
      exact ⟨hi.complete, hi.files, hi.endpoints⟩

end Folder

end Petunia
