import Petunia.Listeners
import Petunia.Lib.Run

set_option autoImplicit false

/-!
# The listener registry against a reference map

The public operations on `m_message_listeners`, in any order and over any names, beside a map from
names to lists in which `AddListener` puts the listener in front.

* `RegistryCall`, `call`, `step`: the operations of the source, with what they have returned;
* `Reference`, `refer`: the reference map and what it returns;
* `agrees_exec`: a run that dereferences no `nullptr` agrees with the reference;
* **`matchesReference_iff`**: the calls agree with the reference exactly when a name is removed
  between any two of its `AddListener`.
-/

namespace Petunia

open CTypes Lts

variable {κ : Type*}

/-- A call of a public operation on the registry. -/
inductive RegistryCall (κ : Type*)
  | addListener (name : Bytes) (listener : κ)
  | removeListeners (name : Bytes)
  | clearListeners

/-- What a call returns. -/
inductive RegistryResult
  | size (n : ℕ)
  | removed (b : Bool)
  | cleared
  deriving DecidableEq

/-- `m_message_listeners`, and what the calls so far have returned. -/
structure Registry (κ : Type*) where
  listeners : Listeners κ
  results : List RegistryResult

namespace Registry

/-- The registry of a new `Petunia`. -/
def empty : Registry κ := ⟨∅, []⟩

/-- A call of the source; `none` is the dereference of `nullptr`. -/
def call (listeners : Listeners κ) : RegistryCall κ → Option (RegistryResult × Listeners κ)
  | .addListener name f => (addListener listeners name f).map fun r => (.size r.1, r.2)
  | .removeListeners name =>
    some (.removed (removeListeners listeners name).1, (removeListeners listeners name).2)
  | .clearListeners => some (.cleared, clearListeners listeners)

def step (s : Registry κ) (c : RegistryCall κ) : Option (Registry κ) :=
  (call s.listeners c).map fun r => ⟨r.2, s.results ++ [r.1]⟩

end Registry

/-! ## The reference -/

/-- The reference map from names to lists of listeners, and what its calls have returned. -/
structure Reference (κ : Type*) where
  lists : Bytes → Option (List κ)
  results : List RegistryResult

namespace Reference

def empty : Reference κ := ⟨fun _ => none, []⟩

/-- A call on the reference map. -/
def call (lists : Bytes → Option (List κ)) :
    RegistryCall κ → RegistryResult × (Bytes → Option (List κ))
  | .addListener name f =>
    let list := f :: (lists name).getD []
    (.size list.length, Function.update lists name (some list))
  | .removeListeners name => (.removed (lists name).isSome, Function.update lists name none)
  | .clearListeners => (.cleared, fun _ => none)

def step (r : Reference κ) (c : RegistryCall κ) : Reference κ :=
  ⟨(call r.lists c).2, r.results ++ [(call r.lists c).1]⟩

end Reference

/-- What the calls do to an empty reference map. -/
def refer (calls : List (RegistryCall κ)) : Reference κ :=
  calls.foldl Reference.step Reference.empty

/-- The registry and the reference hold the same lists and have returned the same. -/
def Agrees (s : Registry κ) (r : Reference κ) : Prop :=
  (∀ name, s.listeners.lookup name = r.lists name) ∧ s.results = r.results

/-- No call dereferences `nullptr`, and the registry ends as the reference does. -/
def MatchesReference (calls : List (RegistryCall κ)) : Prop :=
  ∃ s, exec Registry.step Registry.empty calls = some s ∧ Agrees s (refer calls)

/-! ## Agreement along a run -/

theorem agrees_step {s t : Registry κ} {r : Reference κ} {c : RegistryCall κ}
    (h : Registry.step s c = some t) (hr : Agrees s r) : Agrees t (Reference.step r c) := by
  obtain ⟨⟨res, listeners⟩, hc, ht⟩ := Option.map_eq_some_iff.mp h
  subst ht
  cases c with
  | addListener name f =>
    obtain ⟨p, hp, he⟩ := Option.map_eq_some_iff.mp hc
    obtain ⟨hn, hp⟩ := addListener_eq_some hp
    have hl : r.lists name = none := (hr.1 name).symm.trans hn
    subst hp
    cases he
    refine ⟨fun k => ?_, ?_⟩
    · simp only [Reference.step, Reference.call, hl, Option.getD_none, Function.update_apply]
      split_ifs with hk
      · rw [hk, AList.lookup_insert]
      · rw [AList.lookup_insert_ne hk, hr.1 k]
    · simp only [Reference.step, Reference.call, hl, Option.getD_none, List.length_singleton, hr.2]
  | removeListeners name =>
    cases hc
    refine ⟨fun k => ?_, ?_⟩
    · simp only [Reference.step, Reference.call, Function.update_apply, lookup_removeListeners,
        hr.1 k]
    · simp only [Reference.step, Reference.call, removeListeners_fst, hr.1 name, hr.2]
  | clearListeners =>
    cases hc
    refine ⟨fun k => ?_, ?_⟩
    · simp only [Reference.step, Reference.call, lookup_clearListeners]
    · simp only [Reference.step, Reference.call, hr.2]

/-- **A run that dereferences no `nullptr` agrees with the reference.** -/
theorem agrees_exec {s t : Registry κ} {r : Reference κ} {calls : List (RegistryCall κ)}
    (h : exec Registry.step s calls = some t) (hr : Agrees s r) :
    Agrees t (calls.foldl Reference.step r) := by
  induction calls generalizing s r with
  | nil => cases h; exact hr
  | cons c calls ih =>
    obtain ⟨u, hu, h⟩ := exec_cons_eq_some.mp h
    exact ih h (agrees_step hu hr)

theorem agrees_empty : Agrees (Registry.empty : Registry κ) Reference.empty :=
  ⟨fun name => AList.lookup_empty name, rfl⟩

theorem matchesReference_of_exec {s : Registry κ} {calls : List (RegistryCall κ)}
    (h : exec Registry.step Registry.empty calls = some s) : MatchesReference calls :=
  ⟨s, h, agrees_exec h agrees_empty⟩

/-! ## When no call dereferences `nullptr` -/

/-- The call leaves no entry for the name. -/
def RegistryCall.Erases (name : Bytes) : RegistryCall κ → Prop
  | .addListener _ _ => False
  | .removeListeners k => k = name
  | .clearListeners => True

/-- A call erases the name before the first `AddListener` of it. -/
def ErasedFirst (name : Bytes) (calls : List (RegistryCall κ)) : Prop :=
  ∀ pre post f, calls = pre ++ .addListener name f :: post → ∃ c ∈ pre, c.Erases name

/-- Between two `AddListener` of one name a call erases the name. -/
def Separated (calls : List (RegistryCall κ)) : Prop :=
  ∀ pre post name f, calls = pre ++ .addListener name f :: post → ErasedFirst name post

theorem erasedFirst_cons {name : Bytes} {c : RegistryCall κ} {calls : List (RegistryCall κ)} :
    ErasedFirst name (c :: calls) ↔
      c.Erases name ∨ (∀ f, c ≠ .addListener name f) ∧ ErasedFirst name calls := by
  constructor
  · intro h
    by_cases hc : c.Erases name
    · exact .inl hc
    · refine .inr ⟨fun f hf => ?_, fun pre post f hp => ?_⟩
      · obtain ⟨d, hd, -⟩ := h [] calls f (congrArg (· :: calls) hf)
        cases hd
      · obtain ⟨d, hd, he⟩ := h (c :: pre) post f (congrArg (c :: ·) hp)
        rcases List.mem_cons.mp hd with rfl | hd
        · exact absurd he hc
        · exact ⟨d, hd, he⟩
  · intro h pre post f hp
    cases pre with
    | nil =>
      obtain ⟨rfl, -⟩ := List.cons.inj hp
      rcases h with h | ⟨h, -⟩
      · exact h.elim
      · exact absurd rfl (h f)
    | cons d pre =>
      obtain ⟨hd, ht⟩ := List.cons.inj hp
      rcases h with h | ⟨-, h⟩
      · exact ⟨d, List.mem_cons_self, hd ▸ h⟩
      · obtain ⟨b, hb, he⟩ := h pre post f ht
        exact ⟨b, List.mem_cons_of_mem d hb, he⟩

theorem separated_cons {c : RegistryCall κ} {calls : List (RegistryCall κ)} :
    Separated (c :: calls) ↔
      (∀ name f, c = .addListener name f → ErasedFirst name calls) ∧ Separated calls := by
  constructor
  · intro h
    exact ⟨fun name f hc => h [] calls name f (congrArg (· :: calls) hc),
      fun pre post name f hp => h (c :: pre) post name f (congrArg (c :: ·) hp)⟩
  · rintro ⟨hc, h⟩ pre post name f hp
    cases pre with
    | nil =>
      obtain ⟨rfl, rfl⟩ := List.cons.inj hp
      exact hc name f rfl
    | cons d pre => exact h pre post name f (List.cons.inj hp).2

theorem separated_cons_of_ne {c : RegistryCall κ} {calls : List (RegistryCall κ)}
    (hc : ∀ name f, c ≠ .addListener name f) : Separated (c :: calls) ↔ Separated calls := by
  rw [separated_cons]
  exact and_iff_right fun name f he => absurd he (hc name f)

theorem separated_nil : Separated ([] : List (RegistryCall κ)) := by
  intro pre post name f hp
  simp at hp

theorem erasedFirst_nil (name : Bytes) : ErasedFirst name ([] : List (RegistryCall κ)) := by
  intro pre post f hp
  simp at hp

/-- The names of the registry are erased before they are added to again. -/
def Ready (listeners : Listeners κ) (calls : List (RegistryCall κ)) : Prop :=
  ∀ name, listeners.lookup name ≠ none → ErasedFirst name calls

/-- An `AddListener` goes through if the name has no entry, and the name is then to be erased. -/
theorem ready_addListener {listeners : Listeners κ} {name : Bytes} {f : κ}
    {calls : List (RegistryCall κ)} :
    Ready listeners (.addListener name f :: calls) ∧ ErasedFirst name calls ↔
      listeners.lookup name = none ∧ Ready (listeners.insert name [f]) calls := by
  constructor
  · rintro ⟨h, hc⟩
    have hn : listeners.lookup name = none := by
      by_contra hn
      rcases erasedFirst_cons.mp (h name hn) with h | ⟨h, -⟩
      · exact h
      · exact h f rfl
    refine ⟨hn, fun k hk => ?_⟩
    by_cases hkn : k = name
    · exact hkn ▸ hc
    · rw [AList.lookup_insert_ne hkn] at hk
      rcases erasedFirst_cons.mp (h k hk) with h | ⟨-, h⟩
      · exact h.elim
      · exact h
  · rintro ⟨hn, h⟩
    refine ⟨fun k hk => erasedFirst_cons.mpr (.inr ⟨fun g hg => ?_, h k ?_⟩), h name ?_⟩
    · exact hk ((RegistryCall.addListener.inj hg).1 ▸ hn)
    · have hkn : k ≠ name := fun e => hk (e ▸ hn)
      rwa [AList.lookup_insert_ne hkn]
    · rw [AList.lookup_insert]
      exact Option.some_ne_none _

theorem ready_removeListeners {listeners : Listeners κ} {name : Bytes}
    {calls : List (RegistryCall κ)} :
    Ready listeners (.removeListeners name :: calls) ↔
      Ready (removeListeners listeners name).2 calls := by
  apply forall_congr'
  intro k
  rw [erasedFirst_cons, lookup_removeListeners]
  split_ifs with hk
  · simp [RegistryCall.Erases, hk]
  · simp [RegistryCall.Erases, Ne.symm hk]

theorem ready_clearListeners {listeners : Listeners κ} {calls : List (RegistryCall κ)} :
    Ready listeners (.clearListeners :: calls) ↔ Ready (clearListeners listeners) calls := by
  apply forall_congr'
  intro k
  rw [erasedFirst_cons, lookup_clearListeners]
  simp [RegistryCall.Erases]

theorem step_addListener {s u : Registry κ} {name : Bytes} {f : κ} :
    Registry.step s (.addListener name f) = some u ↔ s.listeners.lookup name = none ∧
      u = ⟨s.listeners.insert name [f], s.results ++ [.size 1]⟩ := by
  constructor
  · intro h
    obtain ⟨r, hr, hu⟩ := Option.map_eq_some_iff.mp h
    obtain ⟨p, hp, he⟩ := Option.map_eq_some_iff.mp hr
    obtain ⟨hn, hp⟩ := addListener_eq_some hp
    subst hp
    exact ⟨hn, by rw [← hu, ← he]⟩
  · rintro ⟨hn, rfl⟩
    rw [Registry.step, Registry.call, addListener_of_lookup_eq_none hn]
    rfl

/-- A call that goes through has one outcome. -/
theorem exists_step_iff {s u : Registry κ} {c : RegistryCall κ} {P : Registry κ → Prop}
    (h : Registry.step s c = some u) : (∃ v, Registry.step s c = some v ∧ P v) ↔ P u := by
  constructor
  · rintro ⟨v, hv, hP⟩
    cases h.symm.trans hv
    exact hP
  · exact fun hP => ⟨u, h, hP⟩

/-- **When the calls dereference no `nullptr`**, from any registry. -/
theorem exec_iff_separated (calls : List (RegistryCall κ)) (s : Registry κ) :
    (∃ t, exec Registry.step s calls = some t) ↔ Separated calls ∧ Ready s.listeners calls := by
  induction calls generalizing s with
  | nil => simp [separated_nil, Ready, erasedFirst_nil]
  | cons c calls ih =>
    have hexec : (∃ t, exec Registry.step s (c :: calls) = some t) ↔
        ∃ u, Registry.step s c = some u ∧ Separated calls ∧ Ready u.listeners calls := by
      simp only [exec_cons_eq_some]
      rw [exists_comm]
      exact exists_congr fun u => by rw [exists_and_left, ih u]
    rw [hexec]
    cases c with
    | addListener name f =>
      have hc : (∀ k g, RegistryCall.addListener name f = .addListener k g → ErasedFirst k calls) ↔
          ErasedFirst name calls :=
        ⟨fun h => h name f rfl, fun h k g hk => (RegistryCall.addListener.inj hk).1 ▸ h⟩
      simp only [step_addListener, separated_cons, hc]
      constructor
      · rintro ⟨u, ⟨hn, rfl⟩, hs, hr⟩
        obtain ⟨hr, he⟩ := ready_addListener.mpr ⟨hn, hr⟩
        exact ⟨⟨he, hs⟩, hr⟩
      · rintro ⟨⟨he, hs⟩, hr⟩
        obtain ⟨hn, hr⟩ := ready_addListener.mp ⟨hr, he⟩
        exact ⟨_, ⟨hn, rfl⟩, hs, hr⟩
    | removeListeners name =>
      have hstep : Registry.step s (.removeListeners name) =
        some ⟨(removeListeners s.listeners name).2, _⟩ := rfl
      rw [separated_cons_of_ne (by simp), ready_removeListeners]
      exact exists_step_iff hstep
    | clearListeners =>
      have hstep : Registry.step s .clearListeners = some ⟨clearListeners s.listeners, _⟩ := rfl
      rw [separated_cons_of_ne (by simp), ready_clearListeners]
      exact exists_step_iff hstep

/-- **The registry agrees with the reference map** exactly when no name is added to twice without
being erased in between. -/
theorem matchesReference_iff (calls : List (RegistryCall κ)) :
    MatchesReference calls ↔ Separated calls := by
  have hready : Ready (Registry.empty : Registry κ).listeners calls :=
    fun name h => absurd (AList.lookup_empty name) h
  constructor
  · rintro ⟨s, hs, -⟩
    exact ((exec_iff_separated calls _).mp ⟨s, hs⟩).1
  · intro h
    obtain ⟨s, hs⟩ := (exec_iff_separated calls Registry.empty).mpr ⟨h, hready⟩
    exact matchesReference_of_exec hs

/-- The second listener of a name is pushed to the front of `nullptr`. -/
theorem not_matchesReference :
    exec Registry.step Registry.empty
        [RegistryCall.addListener [97] 0, .addListener [97] 1] = none ∧
      ¬ MatchesReference [RegistryCall.addListener [97] 0, .addListener [97] 1] := by
  have key : exec Registry.step Registry.empty
      [RegistryCall.addListener [97] 0, .addListener [97] 1] = none := rfl
  refine ⟨key, ?_⟩
  rintro ⟨s, hs, -⟩
  rw [key] at hs
  cases hs

end Petunia
