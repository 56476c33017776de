import Mathlib.Algebra.GroupWithZero.Nat
import Mathlib.Data.List.Basic
import Mathlib.Logic.Basic

set_option autoImplicit false

/-!
# Runs of a partial step function

A transition system is a function `step : σ → α → Option σ`: `none` says that the action is not
enabled in the state. `exec` performs a list of actions, and a property of runs is proved from what
one step does.

* `exec`, `Reaches`, `Along`: runs, reachability, and a condition met by every step of a run;
* `Reaches.of_final`: a system with a single action has one way to a final state;
* `exec_induction`: the rule that follows the actions still to be performed;
* **`exec_invariant_along`**: what a step keeps under a condition, a run keeps whose steps all meet
  the condition;
* `exec_measure`: runs whose steps make a number smaller come to an end;
* `exec_simulation`: a step-by-step simulation carries over to runs.
-/

namespace Lts

variable {σ τ α β : Type*}

/-- Perform a list of actions; `none` as soon as one of them is not enabled. -/
def exec (step : σ → α → Option σ) : σ → List α → Option σ
  | s, [] => some s
  | s, a :: as => (step s a).bind fun t => exec step t as

/-- Some run leads from `s` to `t`. -/
def Reaches (step : σ → α → Option σ) (s t : σ) : Prop := ∃ as, exec step s as = some t

/-- Every action of the run from `s` is performed in a state in which `C` allows it. -/
def Along (step : σ → α → Option σ) (C : σ → α → Prop) : σ → List α → Prop
  | _, [] => True
  | s, a :: as => C s a ∧ ∀ t ∈ step s a, Along step C t as

variable {step : σ → α → Option σ}

instance Along.decidable (C : σ → α → Prop) [∀ s a, Decidable (C s a)] :
    ∀ (s : σ) (as : List α), Decidable (Along step C s as)
  | _, [] => isTrue trivial
  | s, a :: as =>
    have : ∀ t, Decidable (Along step C t as) := fun t => Along.decidable C t as
    inferInstanceAs (Decidable (C s a ∧ ∀ t ∈ step s a, Along step C t as))

@[simp] theorem exec_nil (s : σ) : exec step s [] = some s := rfl

theorem exec_cons (s : σ) (a : α) (as : List α) :
    exec step s (a :: as) = (step s a).bind fun t => exec step t as := rfl

theorem exec_cons_eq_some {s t : σ} {a : α} {as : List α} :
    exec step s (a :: as) = some t ↔ ∃ u, step s a = some u ∧ exec step u as = some t := by
  rw [exec_cons, Option.bind_eq_some_iff]

theorem exec_append (s : σ) (as bs : List α) :
    exec step s (as ++ bs) = (exec step s as).bind fun t => exec step t bs := by
  induction as generalizing s with
  | nil => rfl
  | cons a as ih =>
    rw [List.cons_append, exec_cons, exec_cons, Option.bind_assoc]
    exact congrArg _ (funext ih)

theorem exec_trans {s t u : σ} {as bs : List α} (h : exec step s as = some t)
    (h' : exec step t bs = some u) : exec step s (as ++ bs) = some u := by
  rw [exec_append, h]; exact h'

theorem Reaches.refl (s : σ) : Reaches step s s := ⟨[], rfl⟩

theorem Reaches.trans {s t u : σ} : Reaches step s t → Reaches step t u → Reaches step s u
  | ⟨_, h⟩, ⟨_, h'⟩ => ⟨_, exec_trans h h'⟩

theorem Reaches.single {s t : σ} {a : α} (h : step s a = some t) : Reaches step s t :=
  ⟨[a], by rw [exec_cons, h]; rfl⟩

/-- **A system with a single action is deterministic**: a state without a step is reached from every
state on the way to it, and there is no other way. -/
theorem Reaches.of_final {step : σ → Unit → Option σ} {s t u : σ} (ht : Reaches step s t)
    (hu : Reaches step s u) (hf : step u () = none) : Reaches step t u := by
  obtain ⟨as, has⟩ := ht
  obtain ⟨bs, hbs⟩ := hu
  induction as generalizing s bs with
  | nil => cases has; exact ⟨bs, hbs⟩
  | cons a as ih =>
    obtain ⟨v, hv, has⟩ := exec_cons_eq_some.mp has
    cases bs with
    | nil =>
      cases hbs
      rw [hf] at hv
      cases hv
    | cons b bs =>
      obtain ⟨w, hw, hbs⟩ := exec_cons_eq_some.mp hbs
      cases hv.symm.trans hw
      exact ih has bs hbs

/-- A condition on the actions alone holds along every run of such actions. -/
theorem along_of_forall {C : σ → α → Prop} {s : σ} {as : List α} (h : ∀ a ∈ as, ∀ s, C s a) :
    Along step C s as := by
  induction as generalizing s with
  | nil => trivial
  | cons a as ih =>
    exact ⟨h a List.mem_cons_self s, fun t _ => ih fun b hb => h b (List.mem_cons_of_mem a hb)⟩

theorem Along.and {C D : σ → α → Prop} {s : σ} {as : List α} (hC : Along step C s as)
    (hD : Along step D s as) : Along step (fun s a => C s a ∧ D s a) s as := by
  induction as generalizing s with
  | nil => trivial
  | cons a as ih => exact ⟨⟨hC.1, hD.1⟩, fun t ht => ih (hC.2 t ht) (hD.2 t ht)⟩

theorem Along.imp {C D : σ → α → Prop} (hCD : ∀ s a, C s a → D s a) {s : σ} {as : List α}
    (hC : Along step C s as) : Along step D s as := by
  induction as generalizing s with
  | nil => trivial
  | cons a as ih => exact ⟨hCD s a hC.1, fun t ht => ih (hC.2 t ht)⟩

/-- A run with a step that does not meet `C`, cut at such a step. -/
theorem exists_of_not_along {C : σ → α → Prop} {s t : σ} {as : List α}
    (h : exec step s as = some t) (hn : ¬ Along step C s as) :
    ∃ u a v, Reaches step s u ∧ ¬ C u a ∧ step u a = some v ∧ Reaches step v t := by
  induction as generalizing s with
  | nil => exact absurd trivial hn
  | cons a as ih =>
    obtain ⟨u, hu, h⟩ := exec_cons_eq_some.mp h
    by_cases hC : C s a
    · have hn' : ¬ Along step C u as := fun hal =>
        hn ⟨hC, fun v hv => Option.some.inj (hu.symm.trans hv) ▸ hal⟩
      obtain ⟨v, b, w, hv, hb, hw, ht⟩ := ih h hn'
      exact ⟨v, b, w, (Reaches.single hu).trans hv, hb, hw, ht⟩
    · exact ⟨s, a, u, .refl s, hC, hu, as, h⟩

/-- A run with a step that does not meet `C`, cut at the first such step. -/
theorem exists_first_of_not_along {C : σ → α → Prop} {s t : σ} {as : List α}
    (h : exec step s as = some t) (hn : ¬ Along step C s as) :
    ∃ bs u a v cs, exec step s bs = some u ∧ Along step C s bs ∧ ¬ C u a ∧ step u a = some v ∧
      exec step v cs = some t := by
  induction as generalizing s with
  | nil => exact absurd trivial hn
  | cons a as ih =>
    obtain ⟨u, hu, h⟩ := exec_cons_eq_some.mp h
    by_cases hC : C s a
    · have hn' : ¬ Along step C u as := fun hal =>
        hn ⟨hC, fun v hv => Option.some.inj (hu.symm.trans hv) ▸ hal⟩
      obtain ⟨bs, w, b, v, cs, hbs, hal, hb, hv, hcs⟩ := ih h hn'
      refine ⟨a :: bs, w, b, v, cs, exec_cons_eq_some.mpr ⟨u, hu, hbs⟩, ⟨hC, fun x hx => ?_⟩, hb, hv,
        hcs⟩
      rwa [← Option.some.inj (hu.symm.trans hx)]
    · exact ⟨[], s, a, u, as, rfl, trivial, hC, hu, h⟩

/-- **The rule for a run and the actions it still has to perform.** -/
theorem exec_induction {C : σ → α → Prop} {I : σ → List α → Prop}
    (hstep : ∀ s a as t, I s (a :: as) → C s a → step s a = some t → I t as)
    {s t : σ} {as : List α} (h : exec step s as = some t) (hC : Along step C s as) (hI : I s as) :
    I t [] := by
  induction as generalizing s with
  | nil => cases h; exact hI
  | cons a as ih =>
    obtain ⟨u, hu, h⟩ := exec_cons_eq_some.mp h
    exact ih h (hC.2 u hu) (hstep s a as u hI hC.1 hu)

/-- **An invariant kept by the steps that meet `C` holds after every run of such steps.** -/
theorem exec_invariant_along {C : σ → α → Prop} {I : σ → Prop}
    (hstep : ∀ s a t, I s → C s a → step s a = some t → I t)
    {s t : σ} {as : List α} (h : exec step s as = some t) (hC : Along step C s as) (hI : I s) :
    I t :=
  exec_induction (I := fun s _ => I s) (fun s a _ t => hstep s a t) h hC hI

/-- **An invariant kept by every step holds after every run.** -/
theorem exec_invariant {I : σ → Prop} (hstep : ∀ s a t, I s → step s a = some t → I t)
    {s t : σ} {as : List α} (h : exec step s as = some t) (hI : I s) : I t :=
  exec_invariant_along (C := fun _ _ => True) (fun s a t hI _ => hstep s a t hI) h
    (along_of_forall fun _ _ _ => trivial) hI

/-- **The rule for runs that come to an end**: if every step that meets `C` makes `m` smaller, but for
what its action costs, a run of such steps is no longer than `m` and the costs allow. -/
theorem exec_measure {C : σ → α → Prop} {I : σ → Prop} {m : σ → ℕ} {c : α → ℕ}
    (hstep : ∀ s a t, I s → C s a → step s a = some t → I t ∧ m t < m s + c a)
    {s t : σ} {as : List α} (h : exec step s as = some t) (hC : Along step C s as) (hI : I s) :
    I t ∧ as.length + m t ≤ m s + (as.map c).sum := by
  induction as generalizing s with
  | nil =>
    cases h
    exact ⟨hI, by simp⟩
  | cons a as ih =>
    obtain ⟨u, hu, h⟩ := exec_cons_eq_some.mp h
    obtain ⟨hI', hlt⟩ := hstep s a u hI hC.1 hu
    obtain ⟨hI'', hle⟩ := ih h (hC.2 u hu) hI'
    refine ⟨hI'', ?_⟩
    rw [List.length_cons, List.map_cons, List.sum_cons]
    omega

/-- **A simulation of the steps is a simulation of the runs.** Every step that meets `C` is
matched by a run of the other system between related states. -/
theorem exec_simulation {step' : τ → β → Option τ} {C : σ → α → Prop} {R : σ → τ → Prop}
    (hstep : ∀ s a t s', R s s' → C s a → step s a = some t → ∃ t', Reaches step' s' t' ∧ R t t')
    {s t : σ} {s' : τ} {as : List α} (h : exec step s as = some t) (hC : Along step C s as)
    (hR : R s s') : ∃ t', Reaches step' s' t' ∧ R t t' := by
  induction as generalizing s s' with
  | nil => cases h; exact ⟨s', .refl s', hR⟩
  | cons a as ih =>
    obtain ⟨u, hu, h⟩ := exec_cons_eq_some.mp h
    obtain ⟨u', hu', hR'⟩ := hstep s a u s' hR hC.1 hu
    obtain ⟨t', ht', hR''⟩ := ih h (hC.2 u hu) hR'
    exact ⟨t', hu'.trans ht', hR''⟩

end Lts
