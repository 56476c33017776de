import Petunia.Default.Handles

set_option autoImplicit false

/-!
# Constructor and destructor of the SQLite medium

* `Handles.Owned`: every statement has one owner, and no failed evaluation is left;
* **`wp_construct`**: the constructor fills the members, or it throws and releases everything;
* **`wp_destruct`**: the destructor releases everything (`Finalizes`: a loop over the members);
* `Handles.Dangling`: the statement of a member has been finalized by somebody else;
  **`wp_destruct_dangling`**: the destructor does not get past it.
-/

namespace Petunia

open Call

theorem Member.mem_all (m : Member) : m ∈ Member.all := by
  cases m <;> decide

namespace Handles

/-- Every statement has one owner, a member, and no failed evaluation is left. -/
structure Owned (s : Handles) : Prop where
  owners : Ownership.Sound (fun i => s.vms i ≠ none) s.slot
  prepared (i : ℕ) (hi : s.vms i ≠ none) : i < s.prepared
  settled : s.Settled
  connection : s.connection = s.db
  temporary : s.slot .temporary = none
  scalar : s.slot .scalar = none
  query (i : ℕ) (hi : s.query = some i) : s.slot (.member .selectMessages) = some i

/-- Everything has been given back. -/
structure Released (s : Handles) : Prop where
  vms (i : ℕ) : s.vms i = none
  connection : s.connection = false

theorem owned_init (faults : List Bool) : (init faults).Owned where
  owners := Ownership.sound_empty.congr fun _ => iff_of_false (fun h => h rfl) id
  prepared _ hi := absurd rfl hi
  settled := nofun
  connection := rfl
  temporary := rfl
  scalar := rfl
  query := nofun

variable {s t : Handles}

theorem Owned.valid (h : s.Owned) : s.Valid False where
  settled := h.settled
  slot k i hi hv := h.owners.live_of_slot k i hi hv
  query i hi hv := h.owners.live_of_slot _ i (h.query i hi) hv

/-- Evaluations leave the owners. -/
theorem Owned.of_evaluates (h : s.Owned) (he : s.Evaluates t)
    (hq : ∀ i, t.query = some i → t.slot (.member .selectMessages) = some i) : t.Owned where
  owners := he.slot ▸ h.owners.congr fun i => not_congr (he.live i)
  prepared i hi := (h.prepared i fun hn => hi ((he.live i).mpr hn)).trans_le he.prepared
  settled := he.settled
  connection := by rw [he.connection, he.db, h.connection]
  temporary := he.slot ▸ h.temporary
  scalar := he.slot ▸ h.scalar
  query := hq

theorem Owned.withFaults (h : s.Owned) (faults : List Bool) : Owned { s with faults } :=
  ⟨h.owners, h.prepared, h.settled, h.connection, h.temporary, h.scalar, h.query⟩

section

variable {U : Prop}

/-- A statement given back to SQLite. -/
theorem owners_release {h : Handle} {i : ℕ} (ho : Ownership.Sound (fun i => s.vms i ≠ none) s.slot)
    (hi : s.slot h = some i) :
    Ownership.Sound (fun j => (s.evaluated i none).vms j ≠ none)
      (Function.update s.slot h none) := by
  refine (ho.release hi).congr fun j => ?_
  rw [vms_evaluated]
  split_ifs with hj
  · exact iff_of_false (fun h => h rfl) fun h => h.2 hj
  · exact (and_iff_left hj).symm

theorem settled_release {i : ℕ} (hs : s.Settled) : (s.evaluated i none).Settled := by
  intro j
  rw [vms_evaluated]
  split_ifs
  · nofun
  · exact hs j

/-- **`finalize`** gives back what the handle owns, and does not throw. -/
theorem wp_finalize {h : Handle} {Q : Unit → Handles → Prop} {E : Handles → Prop}
    (ho : Ownership.Sound (fun i => s.vms i ≠ none) s.slot) (hs : s.Settled)
    (hnone : s.slot h = none → Q () s)
    (hQ : ∀ i, s.slot h = some i →
      Q () ((s.evaluated i none).emptied h)) :
    wp U (finalize h) Q E s := by
  unfold finalize
  rw [wp_bind, wp_get]
  cases hk : s.slot h with
  | none => exact hnone hk
  | some i =>
    show wp U (sqlite3Finalize i >>= _) Q E s
    rw [wp_bind]
    refine wp_sqlite3Finalize (fun hv => absurd hv (ho.live_of_slot h i hk)) fun e he => ?_
    have hne : e ≠ .failed := fun h => hs i (h ▸ he)
    rw [wp_bind, wp_modify, if_pos (decide_eq_true hne)]
    exact hQ i hk

/-! ## The constructor -/

/-- `compile` has prepared a statement for `h`. -/
def compiled (s : Handles) (h : Handle) : Handles where
  vms := Function.update s.vms s.prepared (some .reset)
  prepared := s.prepared + 1
  connection := s.connection
  db := s.db
  slot := Function.update s.slot h (some s.prepared)
  query := s.query
  faults := s.faults.tail

theorem wp_compile {h : Handle} {Q : ℕ → Handles → Prop} {E : Handles → Prop}
    (hE : E { s with faults := s.faults.tail }) (hQ : Q s.prepared (s.compiled h)) :
    wp U (compile h) Q E s := by
  unfold compile sqlite3Prepare
  rw [wp_bind, wp_bind, wp_fault]
  split_ifs
  · exact hE
  · exact hQ

theorem Owned.vms_prepared (h : s.Owned) : s.vms s.prepared = none :=
  not_not.mp fun hi => absurd (h.prepared _ hi) (lt_irrefl _)

theorem Owned.owners_compiled (h : s.Owned) {k : Handle} (hk : s.slot k = none) :
    Ownership.Sound (fun i => (s.compiled k).vms i ≠ none) (s.compiled k).slot := by
  refine (h.owners.acquire (not_not.mpr h.vms_prepared) hk).congr fun j => ?_
  show Function.update s.vms s.prepared (some .reset) j ≠ none ↔ _
  rw [Function.update_apply]
  split_ifs with hj
  · exact iff_of_true nofun (.inr hj)
  · exact (or_iff_left hj).symm

theorem Owned.settled_compiled (h : s.Owned) (k : Handle) : (s.compiled k).Settled := by
  intro j
  show Function.update s.vms s.prepared (some .reset) j ≠ _
  rw [Function.update_apply]
  split_ifs
  · nofun
  · exact h.settled j

@[simp] theorem slot_compiled (s : Handles) (k : Handle) :
    (s.compiled k).slot = Function.update s.slot k (some s.prepared) := rfl

@[simp] theorem slot_emptied (s : Handles) (k : Handle) :
    (s.emptied k).slot = Function.update s.slot k none := rfl

@[simp] theorem slot_moved (s : Handles) (k k' : Handle) (i : ℕ) :
    (s.moved k k' i).slot = Function.update (Function.update s.slot k none) k' (some i) := rfl

/-- A new statement, in the handle of a member. -/
theorem Owned.moved_compiled {m : Member} (h : s.Owned) (hq : s.query = none)
    (hm : s.slot (.member m) = none) :
    ((s.compiled .temporary).moved .temporary (.member m) s.prepared).Owned where
  owners := by
    refine (h.owners_compiled h.temporary).move ?_ ?_
    · rw [slot_compiled, Function.update_self]
    · simp [hm]
  prepared j hj := by
    have hj : Function.update s.vms s.prepared (some .reset) j ≠ none := hj
    show j < s.prepared + 1
    rw [Function.update_apply] at hj
    split_ifs at hj with hj'
    · omega
    · have := h.prepared j hj
      omega
  settled := h.settled_compiled .temporary
  connection := h.connection
  temporary := by simp
  scalar := by simp [h.scalar]
  query j hj := nomatch hq.symm.trans hj

/-- `compileStatement` fills the handle of a member. -/
theorem wp_compileStatement {m : Member} (h : s.Owned) (hq : s.query = none)
    (hm : s.slot (.member m) = none) :
    wp U (compileStatement m) (fun _ t => t.Owned ∧ t.query = none ∧
      t.slot = Function.update s.slot (.member m) (some s.prepared))
      (fun t => t.Owned ∧ t.query = none) s := by
  have howned := h.moved_compiled hq hm
  unfold compileStatement
  rw [wp_bind]
  apply wp_compile
  · exact ⟨h.withFaults _, hq⟩
  rw [wp_bind, wp_modify, wp_swallow]
  -- the temporary has lost its statement to the member
  refine wp_finalize howned.owners howned.settled (fun _ => ⟨howned, hq, ?_⟩) fun i hi => ?_
  · rw [slot_moved, slot_compiled, Function.update_idem, ← h.temporary, Function.update_eq_self]
  · rw [howned.temporary] at hi
    cases hi

/-- **`CreateStatements`** fills the handles of the members, one after the other. -/
theorem wp_createStatements {l : List Member} (h : s.Owned) (hq : s.query = none)
    (hl : l.Nodup) (hm : ∀ m ∈ l, s.slot (.member m) = none) :
    wp U (l.forM compileStatement) (fun _ t => t.Owned ∧ t.query = none ∧
      ∀ m, m ∈ l ∨ s.slot (.member m) ≠ none → t.slot (.member m) ≠ none)
      (fun t => t.Owned ∧ t.query = none) s := by
  induction l generalizing s with
  | nil => exact ⟨h, hq, fun m hm => hm.resolve_left List.not_mem_nil⟩
  | cons m l ih =>
    obtain ⟨hml, hl⟩ := List.nodup_cons.mp hl
    show wp U (compileStatement m >>= fun _ => l.forM compileStatement) _ _ s
    rw [wp_bind]
    refine wp_mono (wp_compileStatement h hq (hm m List.mem_cons_self)) id (fun _ t ht => ?_)
      fun t ht => ht
    have hne : ∀ m', m' ≠ m → t.slot (.member m') = s.slot (.member m') := by
      intro m' hm'
      rw [ht.2.2, Function.update_of_ne fun he => hm' (Handle.member.inj he)]
    have hnone : ∀ m' ∈ l, t.slot (.member m') = none := by
      intro m' hm'
      rw [hne m' fun he => hml (he ▸ hm')]
      exact hm m' (List.mem_cons_of_mem m hm')
    refine wp_mono (ih ht.1 ht.2.1 hl hnone) id (fun _ u hu => ⟨hu.1, hu.2.1, fun m' hm' => ?_⟩)
      fun u hu => hu
    apply hu.2.2 m'
    by_cases he : m' = m
    · subst he
      right
      rw [ht.2.2, Function.update_self]
      nofun
    · rw [hne m' he]
      exact hm'.imp_left fun h => (List.mem_cons.mp h).resolve_left he

/-- The statement of `execScalar` has been prepared and given back. -/
theorem Owned.keeps_execScalar (h : s.Owned) (e : Option Evaluation) :
    s.Keeps ((((s.compiled .scalar).evaluated s.prepared e).evaluated s.prepared none).emptied
      .scalar) := by
  have hlive : ∀ j, (((s.compiled .scalar).evaluated s.prepared e).evaluated s.prepared none).vms j =
      s.vms j := by
    intro j
    rw [evaluated_evaluated, vms_evaluated]
    split_ifs with hj
    · rw [hj, h.vms_prepared]
    · exact Function.update_of_ne hj ..
  refine ⟨⟨?_, fun j => ?_, Nat.le_succ _, rfl, rfl, fun j => ?_⟩, rfl⟩
  · show Function.update (Function.update s.slot _ _) _ none = s.slot
    rw [Function.update_idem, ← h.scalar, Function.update_eq_self]
  · show (((s.compiled .scalar).evaluated s.prepared e).evaluated s.prepared none).vms j = none ↔ _
    rw [hlive j]
  · exact (hlive j).trans_ne (h.settled j)

/-- **`execScalar`** gives back its statement, also when it fails. -/
theorem wp_execScalar (h : s.Owned) : wp U execScalar (fun _ => s.Keeps) s.Keeps s := by
  have hc : (s.compiled .scalar).vms s.prepared = some .reset := Function.update_self ..
  have hslot : (s.compiled .scalar).slot .scalar = some s.prepared := by
    rw [slot_compiled, Function.update_self]
  have hset := h.settled_compiled .scalar
  unfold execScalar
  rw [wp_bind]
  apply wp_compile
  · exact keeps_tail h.settled
  rw [wp_bind, wp_fault]
  have hlive (e : Evaluation) : ((s.compiled .scalar).evaluated s.prepared (some e)).vms s.prepared ≠
      none := by
    rw [vms_evaluated, if_pos rfl]
    nofun
  split_ifs
  · rw [wp_bind]
    refine wp_sqlite3Step (fun hn => nomatch hc.symm.trans hn) fun e _ => ?_
    rw [wp_bind]
    refine wp_sqlite3Finalize (fun hn => absurd hn (hlive _)) fun _ _ => ?_
    exact (h.keeps_execScalar (some .failed)).withFaults _
  · rw [wp_bind]
    refine wp_sqlite3Step (fun hn => nomatch hc.symm.trans hn) fun e _ => ?_
    rw [wp_bind]
    refine wp_deref (fun hn => absurd hn (hlive _)) fun _ _ => ?_
    rw [wp_swallow]
    have hne : Evaluation.row ≠ .failed := nofun
    have hrow := (keeps_evaluated hset hc hne).1
    have howners := (h.owners_compiled h.scalar).congr fun i => not_congr (hrow.live i)
    refine wp_finalize howners hrow.settled (fun hn => ?_) fun i hi => ?_
    · cases hslot.symm.trans hn
    · obtain rfl := Option.some.inj (hslot.symm.trans hi)
      exact (h.keeps_execScalar (some .row)).withFaults _

/-- `InitializeDatabase` before `CreateStatements`. -/
structure Bare (s : Handles) : Prop where
  owned : s.Owned
  query : s.query = none
  slot (h : Handle) : s.slot h = none

theorem Bare.keeps (h : s.Bare) (hk : s.Keeps t) : t.Bare where
  owned := h.owned.of_evaluates hk.1 fun i hi => by
    rw [hk.2, h.query] at hi
    cases hi
  query := hk.2.trans h.query
  slot k := hk.1.slot ▸ h.slot k

theorem wp_openDatabase (faults : List Bool) :
    wp U openDatabase (fun _ => Bare) Bare (init faults) := by
  have hopen : Bare { init faults with connection := true, db := true, faults := faults.tail } :=
    { owned := ⟨(owned_init faults).owners, nofun, nofun, rfl, rfl, rfl, nofun⟩
      query := rfl
      slot := fun _ => rfl }
  unfold openDatabase
  rw [wp_bind, wp_fault, wp_bind, wp_modify]
  split_ifs
  · exact hopen
  · exact hopen

theorem wp_execDMLDatabase (h : s.Bare) : wp U execDMLDatabase (fun _ => Bare) Bare s := by
  have := h.keeps (keeps_tail h.owned.settled)
  unfold execDMLDatabase
  rw [wp_bind, wp_fault]
  split_ifs
  · exact this
  · exact this

theorem wp_initializeDatabase (databaseAlreadyCreated : Bool) (faults : List Bool) :
    wp U (initializeDatabase databaseAlreadyCreated)
      (fun _ t => t.Owned ∧ t.query = none ∧ ∀ m, t.slot (.member m) ≠ none)
      (fun t => t.Owned ∧ t.query = none) (init faults) := by
  have hbare : ∀ t, Bare t → t.Owned ∧ t.query = none := fun t ht => ⟨ht.owned, ht.query⟩
  have hdml : ∀ s, Bare s →
      wp U ((List.range 4).forM fun _ => execDMLDatabase) (fun _ => Bare) Bare s := fun s hs =>
    wp_forM (fun _ _ => wp_execDMLDatabase) _ hs
  unfold initializeDatabase
  rw [wp_bind]
  refine wp_mono (wp_openDatabase faults) id (fun _ s hs => ?_) hbare
  rw [wp_bind]
  refine wp_mono (hdml s hs) id (fun _ t ht => ?_) hbare
  rw [wp_bind]
  refine wp_mono (wp_execScalar ht.owned) id (fun _ u hu => ?_) fun u hu => hbare u (ht.keeps hu)
  have hlast : ∀ v, Bare v → wp U (Member.all.forM compileStatement)
      (fun _ t => t.Owned ∧ t.query = none ∧ ∀ m, t.slot (.member m) ≠ none)
      (fun t => t.Owned ∧ t.query = none) v := fun v hv =>
    wp_mono (wp_createStatements hv.owned hv.query (by decide) fun m _ => hv.slot _) id
      (fun _ w hw => ⟨hw.1, hw.2.1, fun m => hw.2.2 m (.inl (Member.mem_all m))⟩) fun w hw => hw
  have hu := ht.keeps hu
  dsimp only
  split_ifs
  · exact hlast u hu
  · rw [wp_bind]
    exact wp_mono (hdml u hu) id (fun _ => hlast) hbare

/-! ## The destructor -/

/-- A member gives back its statement. -/
def Finalizes (U : Prop) (p : Member → Call Handles Unit) : Prop :=
  ∀ (m : Member) (s : Handles), s.Owned → s.query = none →
    wp U (p m) (fun _ t => t.Owned ∧ t.query = none ∧
      t.slot = Function.update s.slot (.member m) none) (fun _ => False) s

theorem finalizes_finalize : Finalizes U fun m => finalize (.member m) := by
  intro m s h hq
  have htemp : Handle.temporary ≠ .member m := nofun
  have hscalar : Handle.scalar ≠ .member m := nofun
  refine wp_finalize h.owners h.settled (fun hk => ⟨h, hq, ?_⟩) fun i hk => ⟨?_, hq, rfl⟩
  · rw [← hk, Function.update_eq_self]
  · exact
      { owners := owners_release h.owners hk
        prepared := fun j hj => by
          have hj : (s.evaluated i none).vms j ≠ none := hj
          rw [vms_evaluated] at hj
          split_ifs at hj
          · exact absurd rfl hj
          · exact h.prepared j hj
        settled := settled_release h.settled
        connection := h.connection
        temporary := (Function.update_of_ne htemp none s.slot).trans h.temporary
        scalar := (Function.update_of_ne hscalar none s.slot).trans h.scalar
        query := fun j hj => nomatch hq.symm.trans hj }

theorem finalizes_swallow : Finalizes U fun m => swallow (finalize (.member m)) := by
  intro m s h hq
  rw [wp_swallow]
  exact wp_mono (finalizes_finalize m s h hq) id (fun _ _ ht => ht) fun _ ht => ht.elim

/-- **The loop over the members** gives back the statements of those it goes through. -/
theorem Finalizes.forM {p : Member → Call Handles Unit} (hp : Finalizes U p) (l : List Member)
    (h : s.Owned) (hq : s.query = none) :
    wp U (l.forM p) (fun _ t => t.Owned ∧ t.query = none ∧
      ∀ m, t.slot (.member m) = if m ∈ l then none else s.slot (.member m)) (fun _ => False) s := by
  induction l generalizing s with
  | nil => exact ⟨h, hq, fun m => (if_neg List.not_mem_nil).symm⟩
  | cons m l ih =>
    show wp U (p m >>= fun _ => l.forM p) _ _ s
    rw [wp_bind]
    refine wp_mono (hp m s h hq) id (fun _ t ht => ?_) fun t ht => ht
    refine wp_mono (ih ht.1 ht.2.1) id (fun _ u hu => ⟨hu.1, hu.2.1, fun m' => ?_⟩) fun t ht => ht
    rw [hu.2.2 m', ht.2.2]
    by_cases hm : m' = m
    · subst hm
      rw [Function.update_self, ite_self, if_pos List.mem_cons_self]
    · have hne : Handle.member m' ≠ .member m := fun he => hm (Handle.member.inj he)
      simp only [Function.update_of_ne hne, List.mem_cons, hm, false_or]

/-- A connection all of whose handles are empty. -/
theorem Owned.vms_eq_none (h : s.Owned) (hm : ∀ m, s.slot (.member m) = none) (i : ℕ) :
    s.vms i = none := by
  refine not_not.mp (h.owners.not_live fun k => ?_)
  cases k with
  | member m => exact hm m
  | temporary => exact h.temporary
  | scalar => exact h.scalar

/-- **`close`** closes the connection when no statement is left. -/
theorem wp_close (h : s.Owned) (hm : ∀ m, s.slot (.member m) = none) :
    wp U close (fun _ t => t.Owned ∧ t.query = s.query ∧ t.slot = s.slot ∧ t.Released)
      (fun _ => False) s := by
  have hv := h.vms_eq_none hm
  unfold close
  rw [wp_bind, wp_get]
  cases hdb : s.db with
  | false =>
    refine ⟨h, rfl, rfl, hv, ?_⟩
    rw [h.connection, hdb]
  | true =>
    have hno : decide (∃ i < s.prepared, s.vms i ≠ none) = false :=
      decide_eq_false fun ⟨i, _, hi⟩ => hi (hv i)
    unfold sqlite3Close
    rw [if_pos rfl, wp_bind, wp_modify, wp_modify, hno, Bool.and_false]
    exact ⟨⟨h.owners, h.prepared, h.settled, rfl, h.temporary, h.scalar, h.query⟩, rfl, rfl, hv, rfl⟩

/-- **The destructors of the members** release everything. -/
theorem wp_destroyMembers (h : s.Owned) (hq : s.query = none) :
    wp U destroyMembers (fun _ t => t.Released) (fun _ => False) s := by
  unfold destroyMembers
  rw [wp_bind]
  refine wp_mono (finalizes_swallow.forM Member.all.reverse h hq) id (fun _ t ht => ?_) fun _ h => h
  refine wp_mono (wp_close ht.1 fun m => ?_) id (fun _ u hu => hu.2.2.2) fun _ h => h
  rw [ht.2.2 m, if_pos (List.mem_reverse.mpr (Member.mem_all m))]

/-- **The constructor** ends with a statement for every member, or it throws and releases
everything. -/
theorem wp_construct (databaseAlreadyCreated : Bool) (faults : List Bool) :
    wp U (construct databaseAlreadyCreated)
      (fun _ t => t.Owned ∧ t.query = none ∧ ∀ m, t.slot (.member m) ≠ none)
      (fun t => t.Released) (init faults) := by
  unfold construct
  rw [wp_onThrow]
  refine wp_mono (wp_initializeDatabase databaseAlreadyCreated faults) id (fun _ t ht => ht)
    fun t ht => ?_
  exact wp_mono (wp_destroyMembers ht.1 ht.2) id (fun _ _ hu => hu) fun _ hu => hu.elim

/-- **The destructor** releases everything, and does not throw. -/
theorem wp_destruct (h : s.Owned) (hq : s.query = none) :
    wp U destruct (fun _ t => t.Released) (fun _ => False) s := by
  unfold destruct
  rw [wp_bind]
  refine wp_mono (finalizes_finalize.forM Member.all h hq) id (fun _ t ht => ?_) fun _ h => h
  rw [wp_bind]
  refine wp_mono (wp_close ht.1 fun m => ?_) id (fun _ u hu => ?_) fun _ h => h
  · rw [ht.2.2 m, if_pos (Member.mem_all m)]
  · exact wp_destroyMembers hu.1 (hu.2.1.trans ht.2.1)

end

/-! ## A dangling pointer -/

/-- The statement of `m_select_messages_stmt` has been finalized. -/
structure Dangling (s : Handles) : Prop where
  settled : s.Settled
  select : ∃ i, s.slot (.member .selectMessages) = some i ∧ s.vms i = none

theorem Dangling.valid (h : s.Dangling) : s.Valid True :=
  ⟨h.settled, fun _ _ _ _ => trivial, fun _ _ _ => trivial⟩

theorem Dangling.of_evaluates (h : s.Dangling) (he : s.Evaluates t) : t.Dangling := by
  obtain ⟨i, hi, hv⟩ := h.select
  exact ⟨he.settled, i, he.slot ▸ hi, (he.live i).mpr hv⟩

/-- `received_messages` does not matter. -/
theorem Dangling.with (h : s.Dangling) (query : Option ℕ) (faults : List Bool) :
    Dangling { s with query, faults } :=
  ⟨h.settled, h.select⟩

/-- A call that uses the pointer. -/
theorem wp_reset_dangling (h : s.Dangling) :
    wp True (reset (.member .selectMessages)) (fun _ _ => False) (fun _ => False) s := by
  obtain ⟨i, hi, hv⟩ := h.select
  unfold reset
  rw [wp_bind, wp_get, hi]
  show wp True (sqlite3Reset i >>= _) _ _ s
  rw [wp_bind]
  exact wp_sqlite3Reset (fun _ => trivial) fun e he => nomatch hv.symm.trans he

theorem wp_finalize_dangling {m : Member} (h : s.Dangling) :
    wp True (finalize (.member m)) (fun _ t => m ≠ .selectMessages ∧ t.Dangling) (fun _ => False)
      s := by
  obtain ⟨i, hi, hv⟩ := h.select
  unfold finalize
  rw [wp_bind, wp_get]
  cases hk : s.slot (.member m) with
  | none =>
    refine ⟨?_, h⟩
    rintro rfl
    cases hi.symm.trans hk
  | some j =>
    show wp True (sqlite3Finalize j >>= _) _ _ s
    rw [wp_bind]
    refine wp_sqlite3Finalize (fun _ => trivial) fun e he => ?_
    have hne : e ≠ .failed := fun h' => h.settled j (h' ▸ he)
    have hm : m ≠ .selectMessages := by
      rintro rfl
      obtain rfl := Option.some.inj (hi.symm.trans hk)
      cases hv.symm.trans he
    rw [wp_bind, wp_modify, if_pos (decide_eq_true hne)]
    refine ⟨hm, settled_release h.settled, i, ?_, ?_⟩
    · show Function.update s.slot (.member m) none (.member .selectMessages) = some i
      rw [Function.update_of_ne fun he => hm (Handle.member.inj he).symm, hi]
    · show (s.evaluated j none).vms i = none
      rw [vms_evaluated, hv, ite_self]

/-- **The destructor does not get past** a dangling pointer. -/
theorem wp_destruct_dangling (h : s.Dangling) :
    wp True destruct (fun _ _ => False) (fun _ => False) s := by
  have hloop : ∀ (l : List Member) (s : Handles), .selectMessages ∈ l → s.Dangling →
      wp True (l.forM fun m => finalize (.member m)) (fun _ _ => False) (fun _ => False) s := by
    intro l
    induction l with
    | nil => exact fun s hm => absurd hm List.not_mem_nil
    | cons m l ih =>
      intro s hm hs
      show wp True (finalize (.member m) >>= fun _ => l.forM fun m => finalize (.member m)) _ _ s
      rw [wp_bind]
      refine wp_mono (wp_finalize_dangling hs) id (fun _ t ht => ?_) fun _ h => h
      exact ih t ((List.mem_cons.mp hm).resolve_left ht.1.symm) ht.2
  unfold destruct
  rw [wp_bind]
  exact wp_mono (hloop Member.all s (Member.mem_all _) h) id (fun _ _ h => h.elim) fun _ h => h

end Handles

end Petunia
