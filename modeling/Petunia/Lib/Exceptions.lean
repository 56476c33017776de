import Mathlib.Logic.Basic
import Mathlib.Tactic.SplitIfs

set_option autoImplicit false

/-!
# Calls that throw

A call on a state of type `σ` returns a value, throws, or has undefined behaviour. An exception keeps
the state that the call has reached, since the destructors of the caller run on it.

* `Outcome`, `Call`: a call, with the sequential composition that exceptions leave;
* `Call.swallow`, `Call.onThrow`: `catch (...)` without and with rethrowing;
* `Call.wp`: the states from which a call ends as asked for, with or without undefined behaviour;
* **`wp_bind`**, `wp_swallow`, `wp_onThrow`, `wp_forM`: the rules;
* `wp_mono`: consequence.
-/

/-- How a call ends. -/
inductive Outcome (σ α : Type*)
  | undefined
  | thrown (s : σ)
  | returned (a : α) (s : σ)

/-- A call on a state. -/
def Call (σ α : Type*) := σ → Outcome σ α

namespace Call

universe u v

variable {σ : Type u} {α β : Type v}

/-- An exception of `p` is one of the whole. -/
def bind (p : Call σ α) (f : α → Call σ β) : Call σ β := fun s =>
  match p s with
  | .undefined => .undefined
  | .thrown s => .thrown s
  | .returned a s => f a s

instance : Monad (Call σ) where
  pure a := fun s => .returned a s
  bind := bind

/-- Undefined behaviour. -/
def undefined : Call σ α := fun _ => .undefined

/-- `throw`. -/
def throw : Call σ α := fun s => .thrown s

/-- Read the state. -/
def get : Call σ σ := fun s => .returned s s

/-- Change the state. -/
def modify (f : σ → σ) : Call σ Unit := fun s => .returned () (f s)

/-- `try { p } catch (...) {}`. -/
def swallow (p : Call σ Unit) : Call σ Unit := fun s =>
  match p s with
  | .undefined => .undefined
  | .thrown s => .returned () s
  | .returned () s => .returned () s

/-- The exceptions of `p` leave through `d`. -/
def onThrow (p : Call σ α) (d : Call σ Unit) : Call σ α := fun s =>
  match p s with
  | .undefined => .undefined
  | .returned a s => .returned a s
  | .thrown s =>
    match d s with
    | .undefined => .undefined
    | .thrown s => .thrown s
    | .returned () s => .thrown s

/-- From `s`, the call returns with `Q` or throws with `E`; `U` says whether its behaviour may be
undefined. -/
def wp (U : Prop) (p : Call σ α) (Q : α → σ → Prop) (E : σ → Prop) (s : σ) : Prop :=
  match p s with
  | .undefined => U
  | .thrown s => E s
  | .returned a s => Q a s

variable {U : Prop} {p : Call σ α} {Q : α → σ → Prop} {E : σ → Prop} {s : σ}

@[simp] theorem wp_pure {a : α} : wp U (pure a : Call σ α) Q E s ↔ Q a s := Iff.rfl

@[simp] theorem wp_undefined : wp U (undefined : Call σ α) Q E s ↔ U := Iff.rfl

@[simp] theorem wp_throw : wp U (throw : Call σ α) Q E s ↔ E s := Iff.rfl

@[simp] theorem wp_get {Q : σ → σ → Prop} : wp U get Q E s ↔ Q s s := Iff.rfl

@[simp] theorem wp_modify {f : σ → σ} {Q : Unit → σ → Prop} : wp U (modify f) Q E s ↔ Q () (f s) :=
  Iff.rfl

/-- **Sequential composition.** -/
@[simp] theorem wp_bind {f : α → Call σ β} {Q : β → σ → Prop} :
    wp U (p >>= f) Q E s ↔ wp U p (fun a => wp U (f a) Q E) E s := by
  show wp U (bind p f) Q E s ↔ _
  unfold wp bind
  cases p s <;> rfl

@[simp] theorem wp_swallow {p : Call σ Unit} {Q : Unit → σ → Prop} :
    wp U (swallow p) Q E s ↔ wp U p Q (Q ()) s := by
  unfold wp swallow
  cases p s <;> rfl

@[simp] theorem wp_onThrow {d : Call σ Unit} :
    wp U (onThrow p d) Q E s ↔ wp U p Q (wp U d (fun _ => E) E) s := by
  unfold wp onThrow
  cases p s with
  | undefined | returned => rfl
  | thrown s => cases h : d s <;> simp only [h]

/-- **Consequence.** -/
theorem wp_mono {U' : Prop} {Q' : α → σ → Prop} {E' : σ → Prop} (h : wp U p Q E s) (hU : U → U')
    (hQ : ∀ a t, Q a t → Q' a t) (hE : ∀ t, E t → E' t) : wp U' p Q' E' s := by
  unfold wp at h ⊢
  cases hp : p s with
  | undefined => rw [hp] at h; exact hU h
  | thrown t => rw [hp] at h; exact hE t h
  | returned a t => rw [hp] at h; exact hQ a t h

/-- A call that neither returns nor throws. -/
theorem eq_undefined_of_wp (h : wp True p (fun _ _ => False) (fun _ => False) s) :
    p s = .undefined := by
  unfold wp at h
  cases hp : p s with
  | undefined => rfl
  | thrown t => rw [hp] at h; exact h.elim
  | returned a t => rw [hp] at h; exact h.elim

/-- **A loop over a list** keeps what its body keeps. -/
theorem wp_forM {I : σ → Prop} {f : α → Call σ PUnit} (hf : ∀ a s, I s → wp U (f a) (fun _ => I) I s)
    (l : List α) (hs : I s) : wp U (l.forM f) (fun _ => I) I s := by
  induction l generalizing s with
  | nil => exact hs
  | cons a l ih =>
    show wp U (f a >>= fun _ => l.forM f) (fun _ => I) I s
    rw [wp_bind]
    exact wp_mono (hf a s hs) id (fun _ t ht => ih ht) fun t ht => ht

end Call
