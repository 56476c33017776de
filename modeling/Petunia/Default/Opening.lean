import Petunia.Default.Schema

set_option autoImplicit false

/-!
# When two endpoints can open a channel together

The schema is loaded, tested and changed in separate statements, and a statement of the peer may come
between. The two openings succeed exactly if none comes at the wrong moment.

* `Pending`, `Opener.Current`: a table that an endpoint is still to create, and a `tableExists` with the
  current schema;
* `Clear`: a step that comes neither too early nor too late;
* `Doomed`: one of the runs has failed or will fail; a step that is not clear leads there
  (`doomed_of_not_clear`), and no step leads back (`doomed_step`);
* `Inv`, `inv_step`: one endpoint creates the tables and the other joins it, while the steps are
  clear;
* **`opened_iff`**: the channel is opened if and only if every step is clear
  (`opening_fails_both_create`: two `Auto` endpoints that both create the tables).
-/

namespace Petunia

open Lts

@[simp] theorem Peer.other_ne (x : Peer) : x.other ≠ x := by
  cases x <;> simp [other]

@[simp] theorem Peer.other_other (x : Peer) : x.other.other = x := by
  cases x <;> rfl

theorem Peer.eq_other {x z : Peer} (h : z ≠ x) : z = x.other := by
  cases x <;> cases z <;> first | rfl | exact absurd rfl h

/-- No statement removes a table. -/
theorem InitStatement.tables_run {st : InitStatement} {schema schema' : Schema}
    (h : st.run schema = some schema') {t : ChannelTable} (ht : schema.tables t = true) :
    schema'.tables t = true := by
  cases st with
  | createTable u =>
    simp only [run] at h
    split_ifs at h
    cases h
    show Function.update schema.tables u true t = true
    by_cases hu : t = u
    · subst hu
      rw [Function.update_self]
    · rwa [Function.update_of_ne hu]
  | createIndex u =>
    simp only [run] at h
    split_ifs at h
    cases h
    exact ht
  | compile statement =>
    simp only [run] at h
    split_ifs at h
    cases h
    exact ht

namespace Opening

variable {s s' : Opening} {x z : Peer} {t : ChannelTable}

/-- The effects of one step. -/
inductive Effect (s : Opening) (x : Peer) : Opening → Prop
  | pragmas (h : (s.openers x).todo = .pragmas) : Effect s x ⟨s.schema,
      Function.update s.openers x { s.openers x with todo := .tableExists s.schema.version }⟩
  | test (h : (s.openers x).todo = .tableExists s.schema.version) : Effect s x ⟨s.schema,
      Function.update s.openers x ((s.openers x).test (s.schema.tables .toClient))⟩
  | stale {loaded : ℕ} (h : (s.openers x).todo = .tableExists loaded)
    (hv : loaded ≠ s.schema.version) :
    Effect s x ⟨s.schema, Function.update s.openers x (s.openers x).fail⟩
  | fails {st : InitStatement} {todo : List InitStatement}
    (h : (s.openers x).todo = .run (st :: todo)) (hr : st.run s.schema = none) :
    Effect s x ⟨s.schema, Function.update s.openers x (s.openers x).fail⟩
  | runs {st : InitStatement} {todo : List InitStatement} {schema : Schema}
    (h : (s.openers x).todo = .run (st :: todo)) (hr : st.run s.schema = some schema) :
    Effect s x ⟨schema, Function.update s.openers x { s.openers x with
      todo := .run todo
      compiled := (s.openers x).compiled ++ st.compiled }⟩

/-- **What one step does.** -/
theorem step_effect (h : s.step x = some s') : Effect s x s' := by
  obtain ⟨r, hr, rfl⟩ := Option.map_eq_some_iff.mp h
  unfold Opener.step at hr
  split at hr
  · next hn => cases hr; exact .pragmas hn
  · next loaded hl =>
    split at hr
    · next hv => cases hr; exact .test (hv ▸ hl)
    · next hv => cases hr; exact .stale hl hv
  · cases hr
  · next st todo ht =>
    split at hr
    · next hs => cases hr; exact .fails ht hs
    · next schema hs => cases hr; exact .runs ht hs

theorem openers_of_ne (h : s.step x = some s') (hz : z ≠ x) : s'.openers z = s.openers z := by
  cases step_effect h <;> exact Function.update_of_ne hz ..

theorem tables_step (h : s.step x = some s') (ht : s.schema.tables t = true) :
    s'.schema.tables t = true := by
  cases step_effect h with
  | pragmas | test | stale | fails => exact ht
  | runs _ hr => exact InitStatement.tables_run hr ht

/-! ## Steps at the wrong moment -/

/-- The endpoint is still to create the table. -/
def Pending (s : Opening) (t : ChannelTable) (x : Peer) : Prop :=
  ∃ todo, (s.openers x).todo = .run todo ∧ .createTable t ∈ todo

instance (s : Opening) (t : ChannelTable) (x : Peer) : Decidable (s.Pending t x) :=
  match h : (s.openers x).todo with
  | .pragmas | .tableExists _ => isFalse (by simp [Pending, h])
  | .run todo => decidable_of_iff (.createTable t ∈ todo) (by simp [Pending, h])

end Opening

/-- A `tableExists` that comes next finds the schema as it was loaded. -/
def Opener.Current (o : Opener) (schema : Schema) : Prop :=
  ∀ loaded, o.todo = .tableExists loaded → loaded = schema.version

instance (o : Opener) (schema : Schema) : Decidable (o.Current schema) :=
  match h : o.todo with
  | .pragmas | .run _ => isTrue (by simp [Opener.Current, h])
  | .tableExists loaded => decidable_of_iff (loaded = schema.version) (by simp [Opener.Current, h])

namespace Opening

variable {roles : Peer → ConnectionRole} {s s' : Opening} {x z : Peer} {t : ChannelTable}

/-- The next step of the endpoint does not look for a table, be it by `tableExists` or by a statement
that it compiles, between the test of its peer and the `CREATE TABLE` of its peer; and it is no
`tableExists` after a change of the schema that it has loaded. -/
def Clear (s : Opening) (x : Peer) : Prop :=
  (∀ t ∈ (s.openers x).looksFor, ¬ s.Pending t x.other) ∧ (s.openers x).Current s.schema

instance (s : Opening) (x : Peer) : Decidable (s.Clear x) := inferInstanceAs (Decidable (_ ∧ _))

/-- A run has failed, or will fail to create a table. -/
def Doomed (s : Opening) : Prop :=
  (∃ x, (s.openers x).failed = true) ∨
    ∃ x t, s.Pending t x ∧ (s.schema.tables t = true ∨ s.Pending t x.other)

theorem pending_of_ne (hp : s.Pending t z) (h : s.step x = some s') (hz : z ≠ x) :
    s'.Pending t z := by
  obtain ⟨todo, ht, hm⟩ := hp
  exact ⟨todo, by rw [openers_of_ne h hz, ht], hm⟩

theorem failed_step (h : s.step x = some s') (hf : (s.openers z).failed = true) :
    (s'.openers z).failed = true := by
  by_cases hz : z = x
  · subst hz
    cases step_effect h with
    | pragmas | runs => simpa using hf
    | test => simpa [Opener.test] using hf
    | stale | fails => simp [Opener.fail]
  · rw [openers_of_ne h hz]
    exact hf

/-- An endpoint that is still to create a table fails, or creates it, or is still to do so. -/
theorem pending_step (hp : s.Pending t x) (h : s.step x = some s') :
    (s'.openers x).failed = true ∨ s'.Pending t x ∨
      (s.schema.tables t = false ∧ s'.schema.tables t = true) := by
  obtain ⟨todo, ht, hm⟩ := hp
  cases step_effect h with
  | pragmas hn | test hn | stale hn => rw [ht] at hn; cases hn
  | fails => exact .inl (by simp [Opener.fail])
  | @runs st todo' schema h' hr =>
    rw [ht] at h'
    cases h'
    rcases List.mem_cons.mp hm with rfl | hm
    · simp only [InitStatement.run] at hr
      split_ifs at hr with hn
      cases hr
      exact .inr (.inr ⟨by simpa using hn, Function.update_self ..⟩)
    · exact .inr (.inl ⟨todo', by simp, hm⟩)

/-- **No step leads back.** -/
theorem doomed_step (hd : s.Doomed) (h : s.step z = some s') : s'.Doomed := by
  rcases hd with ⟨x, hf⟩ | ⟨x, t, hp, hq⟩
  · exact .inl ⟨x, failed_step h hf⟩
  by_cases hz : x = z
  · subst hz
    rcases pending_step hp h with hf | hp' | ⟨hn, ht⟩
    · exact .inl ⟨x, hf⟩
    · refine .inr ⟨x, t, hp', hq.imp (tables_step h) fun hq => ?_⟩
      exact pending_of_ne hq h x.other_ne
    · -- the table has been created, and the peer is still to create it
      have hq : s.Pending t x.other := hq.resolve_left (by simp [hn])
      exact .inr ⟨x.other, t, pending_of_ne hq h x.other_ne, .inl ht⟩
  · have hp' : s'.Pending t x := pending_of_ne hp h hz
    rcases hq with ht | hq
    · exact .inr ⟨x, t, hp', .inl (tables_step h ht)⟩
    · obtain rfl : z = x.other := Peer.eq_other (Ne.symm hz)
      rcases pending_step hq h with hf | hq' | ⟨-, ht⟩
      · exact .inl ⟨_, hf⟩
      · exact .inr ⟨x, t, hp', .inr hq'⟩
      · exact .inr ⟨x, t, hp', .inl ht⟩

/-- A `tableExists` with an old schema fails. -/
theorem doomed_of_not_current (hc : ¬ (s.openers x).Current s.schema) (h : s.step x = some s') :
    s'.Doomed := by
  obtain ⟨loaded, hl, hv⟩ : ∃ loaded, (s.openers x).todo = .tableExists loaded ∧
      loaded ≠ s.schema.version := by
    simpa [Opener.Current] using hc
  cases step_effect h with
  | stale => exact .inl ⟨x, by simp [Opener.fail]⟩
  | test hn =>
    rw [hl] at hn
    cases hn
    exact absurd rfl hv
  | pragmas hn | fails hn | runs hn => rw [hl] at hn; cases hn

/-- A step that looks for a table which the peer is still to create. -/
theorem doomed_of_pending (ht : t ∈ (s.openers x).looksFor) (hp : s.Pending t x.other)
    (h : s.step x = some s') : s'.Doomed := by
  have hp' : s'.Pending t x.other := pending_of_ne hp h x.other_ne
  cases htab : s.schema.tables t with
  | true => exact .inr ⟨x.other, t, hp', .inl (tables_step h htab)⟩
  | false =>
    cases step_effect h with
    | pragmas hn => simp [Opener.looksFor, hn] at ht
    | stale => exact .inl ⟨x, by simp [Opener.fail]⟩
    | test hn =>
      -- both endpoints have found no table
      obtain rfl : t = .toClient := by simpa [Opener.looksFor, hn] using ht
      refine .inr ⟨x.other, .toClient, hp', .inr ?_⟩
      refine ⟨createDatabase ++ createStatements (decideRole false (s.openers x).connectionRole),
        ?_, ?_⟩
      · simp [Opener.test, htab]
      · simp [createDatabase]
    | fails => exact .inl ⟨x, by simp [Opener.fail]⟩
    | @runs st todo schema hst hr =>
      cases st with
      | compile statement =>
        simp only [InitStatement.run] at hr
        split_ifs at hr with hall
        have hm : t ∈ statement.table := by simpa [Opener.looksFor, hst] using ht
        rw [hall t hm] at htab
        cases htab
      | _ => simp [Opener.looksFor, hst] at ht

/-- **A step at the wrong moment.** -/
theorem doomed_of_not_clear (hc : ¬ s.Clear x) (h : s.step x = some s') : s'.Doomed := by
  rcases not_and_or.mp hc with hc | hc
  · obtain ⟨t, ht, hp⟩ : ∃ t ∈ (s.openers x).looksFor, s.Pending t x.other := by simpa using hc
    exact doomed_of_pending ht hp h
  · exact doomed_of_not_current hc h

theorem not_opened_of_doomed (hd : s.Doomed) (hs : s.Complete) : ¬ s.Opened roles := by
  intro ho
  rcases hd with ⟨x, hf⟩ | ⟨x, t, ⟨todo, ht, hm⟩, -⟩
  · rw [ho.failed] at hf
    cases hf
  · rw [hs x] at ht
    cases ht
    cases hm

/-! ## Clear steps -/

/-- The schema after the first `k` of the `CREATE` statements. -/
def schemaAfter (k : ℕ) : Schema :=
  (createDatabase.take k).foldl (fun schema st => (st.run schema).getD schema) .empty

/-- An endpoint that has loaded the schema. -/
def looking (role : ConnectionRole) (loaded : ℕ) : Opener := ⟨role, .tableExists loaded, [], false⟩

/-- An endpoint that has run the first `k` of the `CREATE` statements. -/
def creating (role : ConnectionRole) (k : ℕ) : Opener :=
  ⟨role, .run (createDatabase.drop k ++ createStatements role), [], false⟩

/-- An endpoint that has compiled the first `j` of its statements. -/
def compiling (role : ConnectionRole) (j : ℕ) : Opener :=
  ⟨role, .run ((createStatements role).drop j), (statements role).take j, false⟩

theorem compiling_zero (role : ConnectionRole) : compiling role 0 = creating role 4 := rfl

/-- The `CREATE` statements of the endpoint that creates the tables succeed. -/
theorem creating_step (role : ConnectionRole) : ∀ k < 4,
    (creating role k).step (schemaAfter k) = some (creating role (k + 1), schemaAfter (k + 1))
  | 0, _ => rfl
  | 1, _ => rfl
  | 2, _ => rfl
  | 3, _ => rfl

/-- A statement is compiled if its table exists. -/
theorem compiling_step {role : ConnectionRole} {j : ℕ} {schema : Schema}
    (h : ∀ st todo, (compiling role j).todo = .run (.compile st :: todo) →
      ∀ t ∈ st.table, schema.tables t = true) {r : Opener × Schema}
    (hr : (compiling role j).step schema = some r) : r = (compiling role (j + 1), schema) := by
  by_cases hj : j < (statements role).length
  · have hj' : j < (createStatements role).length := by rwa [createStatements, List.length_map]
    have hd : (createStatements role).drop j =
        .compile (statements role)[j] :: (createStatements role).drop (j + 1) := by
      rw [List.drop_eq_getElem_cons hj']
      simp [createStatements]
    have ht := h (statements role)[j] ((createStatements role).drop (j + 1)) (by rw [compiling, hd])
    have hrun : (InitStatement.compile (statements role)[j]).run schema = some schema := by
      rw [InitStatement.run, if_pos ht]
    simp only [Opener.step, compiling, hd, hrun, InitStatement.compiled] at hr
    rw [← Option.some.inj hr, compiling, List.take_succ_eq_append_getElem hj]
  · have hd : (createStatements role).drop j = [] :=
      List.drop_eq_nil_of_le (by rw [createStatements, List.length_map]; omega)
    simp only [Opener.step, compiling, hd] at hr
    cases hr

/-- The endpoint has found no table and creates the tables, or has created them. -/
def Creates (s : Opening) (role : ConnectionRole) (x : Peer) : Prop :=
  (∃ k < 4, s.openers x = creating role k ∧ s.schema = schemaAfter k) ∨
    ∃ j, s.openers x = compiling role j ∧ s.schema = schemaAfter 4

/-- The endpoint has not yet looked for the table. -/
def Waits (s : Opening) (role : ConnectionRole) (x : Peer) : Prop :=
  s.openers x = .init role ∨ ∃ loaded, s.openers x = looking role loaded

/-- The endpoint has not yet looked for the table, or has found it. -/
def Joins (s : Opening) (role : ConnectionRole) (x : Peer) : Prop :=
  s.Waits role x ∨
    ∃ j, s.openers x = compiling (decideRole true role) j ∧ s.schema.tables .toClient = true

/-- What holds while the steps are clear. -/
def Inv (roles : Peer → ConnectionRole) (s : Opening) : Prop :=
  (s.schema = .empty ∧ ∀ x, s.Waits (roles x) x) ∨
    ∃ x, s.Creates (decideRole false (roles x)) x ∧ s.Joins (roles x.other) x.other

/-- A table that is not there is still to be created. -/
theorem tables_schemaAfter (t : ChannelTable) : ∀ k < 4,
    .createTable t ∈ createDatabase.drop k ∨ (schemaAfter k).tables t = true := by
  cases t <;> decide

theorem Creates.tables {role : ConnectionRole} (h : s.Creates role x) (t : ChannelTable)
    (hp : ¬ s.Pending t x) : s.schema.tables t = true := by
  rcases h with ⟨k, hk, hx, hs⟩ | ⟨j, -, hs⟩
  · rw [hs]
    refine (tables_schemaAfter t k hk).resolve_left fun hm => hp ?_
    exact ⟨createDatabase.drop k ++ createStatements role, by rw [hx]; rfl,
      List.mem_append_left _ hm⟩
  · rw [hs]
    cases t <;> rfl

/-- The endpoint that creates the tables takes a step. -/
theorem Creates.step {role : ConnectionRole} (hx : s.Creates role x) (h : s.step x = some s') :
    s'.Creates role x := by
  obtain ⟨r, hr, rfl⟩ := Option.map_eq_some_iff.mp h
  rcases hx with ⟨k, hk, hx, hs⟩ | ⟨j, hx, hs⟩
  · rw [hx, hs, creating_step role k hk] at hr
    cases hr
    by_cases hk' : k + 1 < 4
    · exact .inl ⟨k + 1, hk', by simp, rfl⟩
    · obtain rfl : k = 3 := by omega
      exact .inr ⟨0, by simp [compiling_zero], rfl⟩
  · rw [hx, hs] at hr
    have hr := compiling_step (fun st todo _ t _ => by cases t <;> rfl) hr
    exact .inr ⟨j + 1, by simp [hr], by rw [hr]⟩

/-- An endpoint that has not yet looked for the table takes a clear step: it loads the schema, or
looks for the table. -/
theorem Waits.step {role : ConnectionRole} (hx : s.Waits role x) (hc : s.Clear x)
    (h : s.step x = some s') : s'.schema = s.schema ∧ (s'.Waits role x ∨
      .toClient ∈ (s.openers x).looksFor ∧
        s'.openers x = (Opener.init role).test (s.schema.tables .toClient)) := by
  obtain ⟨r, hr, rfl⟩ := Option.map_eq_some_iff.mp h
  rcases hx with hx | ⟨loaded, hx⟩
  · rw [hx] at hr
    cases hr
    exact ⟨rfl, .inl (.inr ⟨s.schema.version, Function.update_self ..⟩)⟩
  · have hl : loaded = s.schema.version := hc.2 loaded (by rw [hx]; rfl)
    have htest : (looking role loaded).step s.schema =
        some ((Opener.init role).test (s.schema.tables .toClient), s.schema) := if_pos hl
    rw [hx, htest] at hr
    cases hr
    exact ⟨rfl, .inr ⟨by simp [hx, Opener.looksFor, looking], Function.update_self ..⟩⟩

/-- The other endpoint takes a clear step. -/
theorem Joins.step {role role' : ConnectionRole} (hx : s.Creates role x.other)
    (hy : s.Joins role' x) (hc : s.Clear x) (h : s.step x = some s') :
    s'.Joins role' x ∧ s'.schema = s.schema := by
  rcases hy with hy | ⟨j, hy, ht⟩
  · obtain ⟨hschema, hs | ⟨hl, hs⟩⟩ := hy.step hc h
    · exact ⟨.inl hs, hschema⟩
    · have ht : s.schema.tables .toClient = true := hx.tables .toClient (hc.1 _ hl)
      refine ⟨.inr ⟨0, ?_, by rw [hschema, ht]⟩, hschema⟩
      simp [hs, Opener.test, Opener.init, ht, compiling]
  · obtain ⟨r, hr, rfl⟩ := Option.map_eq_some_iff.mp h
    rw [hy] at hr
    have hr := compiling_step (fun st todo htodo t hst => ?_) hr
    · subst hr
      exact ⟨.inr ⟨j + 1, by simp, ht⟩, rfl⟩
    · refine hx.tables t (hc.1 t ?_)
      rw [hy]
      simpa [Opener.looksFor, htodo] using hst

/-- **A clear step.** -/
theorem inv_step (hi : Inv roles s) (hc : s.Clear z) (h : s.step z = some s') : Inv roles s' := by
  rcases hi with ⟨he, hw⟩ | ⟨x, hx, hy⟩
  · have hother : ∀ y ≠ z, s'.Waits (roles y) y := fun y hyz => by
      rw [Waits, openers_of_ne h hyz]
      exact hw y
    obtain ⟨hschema, hs | ⟨-, hs⟩⟩ := (hw z).step hc h
    · refine .inl ⟨hschema.trans he, fun y => ?_⟩
      by_cases hyz : y = z
      · rwa [hyz]
      · exact hother y hyz
    · -- the endpoint has looked for the table and creates it
      refine .inr ⟨z, .inl ⟨0, by omega, ?_, hschema.trans he⟩, .inl (hother _ z.other_ne)⟩
      rw [hs, he]
      rfl
  by_cases hz : z = x
  · subst hz
    refine .inr ⟨z, hx.step h, ?_⟩
    have ho : s'.openers z.other = s.openers z.other := openers_of_ne h z.other_ne
    refine hy.imp (fun hw => ?_) fun ⟨j, hj, ht⟩ => ⟨j, ho.trans hj, tables_step h ht⟩
    rwa [Waits, ho]
  · obtain rfl : z = x.other := Peer.eq_other hz
    obtain ⟨hy', hs⟩ := Joins.step (by rwa [Peer.other_other]) hy hc h
    refine .inr ⟨x, ?_, hy'⟩
    have ho : s'.openers x = s.openers x := openers_of_ne h (Ne.symm hz)
    simpa only [Creates, ho, hs] using hx

theorem inv_init (roles : Peer → ConnectionRole) : Inv roles (init roles) :=
  .inl ⟨rfl, fun _ => .inl rfl⟩

theorem creating_todo_ne {role : ConnectionRole} {k : ℕ} (hk : k < 4) :
    (creating role k).todo ≠ .run [] := by
  intro h
  have hl := congrArg List.length (List.append_eq_nil_iff.mp (Todo.run.inj h)).1
  rw [List.length_drop] at hl
  exact absurd hl (Nat.sub_ne_zero_of_lt hk)

theorem compiled_compiling {role : ConnectionRole} {j : ℕ}
    (h : (compiling role j).todo = .run []) : (compiling role j).compiled = statements role := by
  have hl := List.drop_eq_nil_iff.mp (Todo.run.inj h)
  rw [createStatements, List.length_map] at hl
  exact List.take_of_length_le hl

theorem Waits.todo_ne {role : ConnectionRole} (h : s.Waits role x) : (s.openers x).todo ≠ .run [] := by
  rcases h with h | ⟨loaded, h⟩ <;> simp [h, Opener.init, looking]

/-- **Both runs have ended**, and no step came at the wrong moment. -/
theorem Inv.opened (hi : Inv roles s) (hs : s.Complete) : s.Opened roles := by
  rcases hi with ⟨-, hw⟩ | ⟨x, hx, hy⟩
  · exact absurd (hs .first) (hw .first).todo_ne
  have hsx := hs x
  have hsy := hs x.other
  obtain ⟨j, hx, hschema⟩ : ∃ j, s.openers x = compiling (decideRole false (roles x)) j ∧
      s.schema = schemaAfter 4 := by
    refine hx.resolve_left ?_
    rintro ⟨k, hk, hx, -⟩
    rw [hx] at hsx
    exact creating_todo_ne hk hsx
  obtain ⟨i, hy, -⟩ : ∃ i, s.openers x.other = compiling (decideRole true (roles x.other)) i ∧
      s.schema.tables .toClient = true := by
    exact hy.resolve_left fun hw => hw.todo_ne hsy
  rw [hx] at hsx
  rw [hy] at hsy
  have hall : ∀ P : Opener → Prop, P (s.openers x) → P (s.openers x.other) →
      ∀ z, P (s.openers z) := by
    intro P hPx hPy z
    by_cases hz : z = x
    · rwa [hz]
    · rwa [Peer.eq_other hz]
  constructor
  · exact hall (fun o => o.failed = false) (by rw [hx]; rfl) (by rw [hy]; rfl)
  · intro t
    rw [hschema]
    cases t <;> rfl
  · intro t
    rw [hschema]
    cases t <;> rfl
  · refine hall (fun o => o.compiled = statements o.connectionRole) ?_ ?_
    · rw [hx]
      exact compiled_compiling hsx
    · rw [hy]
      exact compiled_compiling hsy
  · intro h
    refine ⟨x, ?_, ?_⟩
    · rw [hx, h x]
      rfl
    · rw [hy, h x.other]
      rfl

/-- **When two endpoints open a channel.** For every interleaving of the two runs: neither fails,
the channel is complete, every statement is compiled, and two `Auto` endpoints become a server and a
client, if and only if no endpoint looks for the table or compiles a statement on a table between
the test of its peer and the `CREATE TABLE` of its peer, and no `CREATE` of its peer comes between its
first `PRAGMA` and its `tableExists`. -/
theorem opened_iff {as : List Peer} (h : exec step (init roles) as = some s) (hs : s.Complete) :
    s.Opened roles ↔ Along step Clear (init roles) as := by
  constructor
  · intro ho
    by_contra hn
    obtain ⟨u, x, v, -, hc, hv, bs, hend⟩ := exists_of_not_along h hn
    have hd : s.Doomed := exec_invariant (fun _ _ _ => doomed_step) hend (doomed_of_not_clear hc hv)
    exact not_opened_of_doomed hd hs ho
  · intro hc
    exact (exec_invariant_along (fun _ _ _ => inv_step) h hc (inv_init roles)).opened hs

/-- One endpoint after the other. -/
theorem opened_iff_sequential : ∃ s, exec step (init fun _ => .auto)
      (List.replicate 12 .first ++ List.replicate 8 .second) = some s ∧ s.Complete ∧
    s.Opened fun _ => .auto := by
  have key : ∀ s, exec step (init fun _ => .auto)
      (List.replicate 12 .first ++ List.replicate 8 .second) = some s →
      s.Complete ∧ s.Opened fun _ => .auto := by
    intro s h
    have hs : s.Complete := by rintro (_ | _) <;> cases h <;> rfl
    exact ⟨hs, (opened_iff h hs).mpr (by decide)⟩
  exact ⟨_, rfl, key _ rfl⟩

/-- **Both endpoints look for the table before one of them has created it.** -/
theorem opening_fails_both_create : ∃ s, exec step (init fun _ => .auto)
      (.second :: .second :: List.replicate 12 .first ++ [.second]) = some s ∧ s.Complete ∧
    ¬ s.Opened fun _ => .auto := by
  refine ⟨_, rfl, by rintro (_ | _) <;> rfl, fun h => ?_⟩
  exact absurd (h.failed .second) (by decide)

/-- The second endpoint loads the schema before the first creates it, and looks for the table behind
the first one's whole run: `tableExists` fails. -/
example : ∃ s, exec step (init fun _ => .auto) (.second :: List.replicate 12 .first ++ [.second]) =
    some s ∧ (s.openers .second).failed = true :=
  ⟨_, rfl, by decide⟩

end Opening

end Petunia
