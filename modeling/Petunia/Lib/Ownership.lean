import Mathlib.Logic.Function.Basic

set_option autoImplicit false

/-!
# Owners

Handles refer to resources, and the owner of a resource is to give it back. `slot k` is what the
handle `k` refers to.

* `Sound`: every live resource has exactly one owner, and owners refer to live resources;
* **`Sound.acquire`**, **`Sound.release`**, **`Sound.move`**: the operations that keep it;
* `Sound.not_live`: without an owner no resource is live, so none has leaked.
-/

namespace Ownership

variable {κ ι : Type*} {live : ι → Prop} {slot : κ → Option ι} {k k' : κ} {i : ι}

/-- Every live resource has exactly one owner. -/
structure Sound (live : ι → Prop) (slot : κ → Option ι) : Prop where
  live_of_slot (k : κ) (i : ι) (h : slot k = some i) : live i
  eq_of_slot (k k' : κ) (i : ι) (h : slot k = some i) (h' : slot k' = some i) : k = k'
  exists_slot (i : ι) (h : live i) : ∃ k, slot k = some i

/-- Nobody owns anything. -/
theorem sound_empty : Sound (fun _ : ι => False) (fun _ : κ => none) where
  live_of_slot _ _ h := by cases h
  eq_of_slot _ _ _ h := by cases h
  exists_slot _ h := h.elim

theorem Sound.congr {live' : ι → Prop} (hs : Sound live slot) (h : ∀ i, live' i ↔ live i) :
    Sound live' slot := by
  have : live' = live := funext fun i => propext (h i)
  rwa [this]

/-- **Nothing has leaked** once the handles are empty. -/
theorem Sound.not_live (hs : Sound live slot) (h : ∀ k, slot k = none) : ¬ live i := by
  intro hi
  obtain ⟨k, hk⟩ := hs.exists_slot i hi
  rw [h k] at hk
  cases hk

variable [DecidableEq κ]

/-- **A new resource** goes to an empty handle. -/
theorem Sound.acquire (hs : Sound live slot) (hi : ¬ live i) (hk : slot k = none) :
    Sound (fun j => live j ∨ j = i) (Function.update slot k (some i)) := by
  refine ⟨fun k' j h => ?_, fun k₁ k₂ j h₁ h₂ => ?_, fun j hj => ?_⟩
  · by_cases hk' : k' = k
    · subst hk'
      rw [Function.update_self] at h
      exact .inr (Option.some.inj h).symm
    · rw [Function.update_of_ne hk'] at h
      exact .inl (hs.live_of_slot k' j h)
  · have key : ∀ k', k' ≠ k → slot k' = some j → j ≠ i := fun k' _ h he =>
      hi (he ▸ hs.live_of_slot k' j h)
    by_cases hk₁ : k₁ = k <;> by_cases hk₂ : k₂ = k
    · rw [hk₁, hk₂]
    · subst hk₁
      rw [Function.update_self] at h₁
      rw [Function.update_of_ne hk₂] at h₂
      exact absurd (Option.some.inj h₁).symm (key k₂ hk₂ h₂)
    · subst hk₂
      rw [Function.update_self] at h₂
      rw [Function.update_of_ne hk₁] at h₁
      exact absurd (Option.some.inj h₂).symm (key k₁ hk₁ h₁)
    · rw [Function.update_of_ne hk₁] at h₁
      rw [Function.update_of_ne hk₂] at h₂
      exact hs.eq_of_slot k₁ k₂ j h₁ h₂
  · rcases hj with hj | rfl
    · obtain ⟨k', h⟩ := hs.exists_slot j hj
      refine ⟨k', ?_⟩
      rw [Function.update_of_ne, h]
      rintro rfl
      rw [hk] at h
      cases h
    · exact ⟨k, Function.update_self ..⟩

/-- **A resource is given back** by its owner. -/
theorem Sound.release (hs : Sound live slot) (hk : slot k = some i) :
    Sound (fun j => live j ∧ j ≠ i) (Function.update slot k none) := by
  have key : ∀ k' j, Function.update slot k none k' = some j → k' ≠ k ∧ slot k' = some j := by
    intro k' j h
    by_cases hk' : k' = k
    · subst hk'
      rw [Function.update_self] at h
      cases h
    · rw [Function.update_of_ne hk'] at h
      exact ⟨hk', h⟩
  refine ⟨fun k' j h => ?_, fun k₁ k₂ j h₁ h₂ => ?_, fun j hj => ?_⟩
  · obtain ⟨hk', h⟩ := key k' j h
    exact ⟨hs.live_of_slot k' j h, fun he => hk' (hs.eq_of_slot k' k i (he ▸ h) hk)⟩
  · exact hs.eq_of_slot k₁ k₂ j (key k₁ j h₁).2 (key k₂ j h₂).2
  · obtain ⟨k', h⟩ := hs.exists_slot j hj.1
    refine ⟨k', ?_⟩
    rw [Function.update_of_ne, h]
    rintro rfl
    exact hj.2 (Option.some.inj (h.symm.trans hk))

/-- **A resource changes hands**: the new owner had none. -/
theorem Sound.move (hs : Sound live slot) (hk : slot k = some i) (hk' : slot k' = none) :
    Sound live (Function.update (Function.update slot k none) k' (some i)) := by
  have hne : k' ≠ k := by
    rintro rfl
    rw [hk] at hk'
    cases hk'
  refine ((hs.release hk).acquire (fun h => h.2 rfl) ?_).congr fun j => ?_
  · rw [Function.update_of_ne hne, hk']
  · constructor
    · intro hj
      by_cases he : j = i
      · exact .inr he
      · exact .inl ⟨hj, he⟩
    · rintro (hj | rfl)
      · exact hj.1
      · exact hs.live_of_slot k _ hk

end Ownership
