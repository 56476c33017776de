import Mathlib.Logic.Function.Basic
import Mathlib.Logic.Relation
import Mathlib.Order.Basic

set_option autoImplicit false

/-!
# Lock orders

Threads that hold locks and want others. If every thread wants only locks that rank above all those
it holds, the threads cannot wait for each other in a cycle.

* `WaitsFor`: a thread wants a lock that another one owns;
* **`not_transGen_waitsFor`**: a ranking of the locks excludes a cycle;
* `Owned`: what a thread owns is among what its program counter says that it holds, and how taking
  and leaving a lock keeps this (`Owned.mono`, `Owned.acquire`, `Owned.release`);
* `Exclusive`: the converse, by which no two threads hold one lock (`Exclusive.eq_of_holds`).
-/

namespace LockOrder

variable {T L ρ : Type*}

/-- Thread `t` wants a lock that thread `u` owns. -/
def WaitsFor (wants : T → Option L) (owner : L → Option T) (t u : T) : Prop :=
  ∃ l, wants t = some l ∧ owner l = some u

/-- The locks of every thread rank below the one it wants. -/
def Ranked [LT ρ] (rank : L → ρ) (wants : T → Option L) (owner : L → Option T) : Prop :=
  ∀ t l l', wants t = some l → owner l' = some t → rank l' < rank l

/-- Along a chain of waiting threads the ranks of the locks ascend. -/
theorem rank_le_of_transGen [Preorder ρ] {rank : L → ρ} {wants : T → Option L}
    {owner : L → Option T} (h : Ranked rank wants owner) {t u : T}
    (hw : Relation.TransGen (WaitsFor wants owner) t u) :
    ∃ l l', wants t = some l ∧ owner l' = some u ∧ rank l ≤ rank l' := by
  induction hw with
  | single hw =>
    obtain ⟨l, ht, hu⟩ := hw
    exact ⟨l, l, ht, hu, le_rfl⟩
  | tail _ hw ih =>
    obtain ⟨l, l₁, ht, hu, hle⟩ := ih
    obtain ⟨l₂, hu', hv⟩ := hw
    exact ⟨l, l₂, ht, hv, hle.trans (h _ _ _ hu' hu).le⟩

/-- **A ranking of the locks excludes a circular wait.** -/
theorem not_transGen_waitsFor [Preorder ρ] {rank : L → ρ} {wants : T → Option L}
    {owner : L → Option T} (h : Ranked rank wants owner) (t : T) :
    ¬ Relation.TransGen (WaitsFor wants owner) t t := by
  intro hw
  obtain ⟨l, l', hl, hl', hle⟩ := rank_le_of_transGen h hw
  have hlt : rank l' < rank l := h t l l' hl hl'
  exact absurd (hle.trans_lt hlt) (lt_irrefl _)

/-! ## What a thread owns -/

/-- A thread holds every lock that it owns. -/
def Owned (owner : L → Option T) (holds : T → L → Prop) : Prop :=
  ∀ l t, owner l = some t → holds t l

variable {owner : L → Option T} {holds holds' : T → L → Prop}

theorem Owned.mono (h : Owned owner holds) (hm : ∀ t l, holds t l → holds' t l) :
    Owned owner holds' :=
  fun l t hl => hm t l (h l t hl)

variable [DecidableEq L]

/-- A thread takes a lock. -/
theorem Owned.acquire (h : Owned owner holds) {l : L} {t : T} (ht : holds t l) :
    Owned (Function.update owner l (some t)) holds := by
  intro l' u hu
  by_cases hl : l' = l
  · subst hl
    rw [Function.update_self] at hu
    exact Option.some.inj hu ▸ ht
  · rw [Function.update_of_ne hl] at hu
    exact h l' u hu

/-- A lock is left; only this one may no longer be held. -/
theorem Owned.release (h : Owned owner holds) {l : L}
    (hm : ∀ t l', l' ≠ l → holds t l' → holds' t l') :
    Owned (Function.update owner l none) holds' := by
  intro l' u hu
  by_cases hl : l' = l
  · subst hl
    rw [Function.update_self] at hu
    cases hu
  · rw [Function.update_of_ne hl] at hu
    exact hm u l' hl (h l' u hu)

/-! ## What a thread holds -/

/-- A thread owns every lock that it holds. -/
def Exclusive (owner : L → Option T) (holds : T → L → Prop) : Prop :=
  ∀ t l, holds t l → owner l = some t

omit [DecidableEq L] in
/-- **No two threads hold one lock.** -/
theorem Exclusive.eq_of_holds (h : Exclusive owner holds) {t u : T} {l : L} (ht : holds t l)
    (hu : holds u l) : t = u :=
  Option.some.inj ((h t l ht).symm.trans (h u l hu))

omit [DecidableEq L] in
theorem Exclusive.mono (h : Exclusive owner holds) (hm : ∀ t l, holds' t l → holds t l) :
    Exclusive owner holds' :=
  fun t l hl => h t l (hm t l hl)

/-- A thread takes a lock that is free. -/
theorem Exclusive.acquire (h : Exclusive owner holds) {l : L} {t : T} (hl : owner l = none)
    (hm : ∀ u l', holds' u l' → holds u l' ∨ (u = t ∧ l' = l)) :
    Exclusive (Function.update owner l (some t)) holds' := by
  intro u l' hu
  by_cases hl' : l' = l
  · subst hl'
    rw [Function.update_self]
    rcases hm u l' hu with hu | ⟨rfl, -⟩
    · rw [h u l' hu] at hl
      cases hl
    · rfl
  · rw [Function.update_of_ne hl']
    exact h u l' ((hm u l' hu).resolve_right fun hl => hl' hl.2)

/-- A thread leaves a lock that it holds. -/
theorem Exclusive.release (h : Exclusive owner holds) {l : L} {t : T} (ht : holds t l)
    (hm : ∀ u l', holds' u l' → holds u l') (hl : ¬ holds' t l) :
    Exclusive (Function.update owner l none) holds' := by
  intro u l' hu
  have hne : l' ≠ l := by
    rintro rfl
    exact hl (h.eq_of_holds ht (hm u l' hu) ▸ hu)
  rw [Function.update_of_ne hne]
  exact h u l' (hm u l' hu)

end LockOrder
