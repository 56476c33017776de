import Mathlib.Algebra.BigOperators.Group.List.Basic
import Mathlib.Algebra.Order.Group.Multiset
import Mathlib.Data.List.AList
import Mathlib.Tactic.Abel

set_option autoImplicit false

/-!
# Maps of queues

Elements that move between queues, some of them kept in a map: the multiset of what the queues hold
and how it changes when one queue is exchanged for another.

* `QueueMap`, `QueueMap.contents`: a map from keys to queues and everything in them
  (`contents_insert`, `contents_insert_nil`);
* `getElem?_set_self`, `getElem?_set_of_ne`, `exists_mem_set`: replacing a member of a list;
* `sum_map_set`, `add_eq_of_exchange`: what this does to a sum, and summands that balance.
-/

namespace Queues

/-- A map from keys to queues. -/
abbrev QueueMap (κ α : Type*) := AList fun _ : κ => List α

variable {κ α ι M : Type*}

theorem getElem?_set_self {l : List α} {k : ℕ} {a : α} (h : l[k]? = some a) (b : α) :
    (l.set k b)[k]? = some b :=
  List.getElem?_set_self (List.getElem?_eq_some_iff.mp h).1

theorem getElem?_set_of_ne {l : List α} {k j : ℕ} {b c : α} (h : l[j]? = some c) (hkj : k ≠ j) :
    (l.set k b)[j]? = some c := by
  rw [List.getElem?_set_ne hkj, h]

/-- Replacing a member by one that has a property if it did keeps a member with the property. -/
theorem exists_mem_set {p : α → Prop} {l : List α} {i : ℕ} {a b : α} (ha : l[i]? = some a)
    (hb : p a → p b) (h : ∃ x ∈ l, p x) : ∃ x ∈ l.set i b, p x := by
  obtain ⟨x, hx, hp⟩ := h
  obtain ⟨j, hj⟩ := List.mem_iff_getElem?.mp hx
  by_cases hij : i = j
  · subst hij
    have hax : a = x := Option.some.inj (ha.symm.trans hj)
    exact ⟨b, List.mem_of_getElem? (getElem?_set_self ha b), hb (hax ▸ hp)⟩
  · exact ⟨x, List.mem_of_getElem? (getElem?_set_of_ne hj hij), hp⟩

/-- Replacing a member of a list exchanges its summand. -/
theorem sum_map_set [AddCommMonoid M] (f : ι → M) {l : List ι} {i : ℕ} {a : ι} (h : l[i]? = some a)
    (b : ι) : ((l.set i b).map f).sum + f a = (l.map f).sum + f b := by
  induction l generalizing i with
  | nil => simp at h
  | cons x l ih =>
    cases i with
    | zero =>
      simp only [List.getElem?_cons_zero, Option.some.injEq] at h
      simp only [List.set_cons_zero, List.map_cons, List.sum_cons, h]
      abel
    | succ i =>
      rw [List.getElem?_cons_succ] at h
      simp only [List.set_cons_succ, List.map_cons, List.sum_cons, add_assoc, ih h]

/-- Two parts of a sum change by summands that balance. -/
theorem add_eq_of_exchange [AddCancelCommMonoid M] {x x' y y' a a' b b' : M} (hx : x' + a = x + a')
    (hy : y' + b = y + b') (h : a' + b' = a + b) : x' + y' = x + y := by
  refine add_right_cancel (b := a + b) ?_
  calc x' + y' + (a + b) = (x' + a) + (y' + b) := by abel
    _ = (x + a') + (y + b') := by rw [hx, hy]
    _ = x + y + (a' + b') := by abel
    _ = x + y + (a + b) := by rw [h]

namespace QueueMap

/-- Everything that the queues hold. -/
def contents (m : QueueMap κ α) : Multiset α := (m.entries.map fun q => (q.2 : Multiset α)).sum

variable [DecidableEq κ]

/-- Exchanging a queue exchanges its elements. -/
theorem contents_insert {m : QueueMap κ α} {k : κ} {q : List α} (h : m.lookup k = some q)
    (q' : List α) : contents (m.insert k q') + q = contents m + q' := by
  have hk : k ∈ m.entries.keys := AList.lookup_isSome.mp (by rw [h]; rfl)
  obtain ⟨b, l₁, l₂, h₁, hm, he⟩ := List.exists_of_kerase hk
  have hb : b = q := by
    have hl : m.lookup k = m.entries.dlookup k := rfl
    rw [hl, hm, List.dlookup_append, List.dlookup_eq_none.mpr h₁, List.dlookup_cons_eq] at h
    exact Option.some.inj h
  subst hb
  rw [contents, AList.entries_insert, he, contents, hm]
  simp only [List.map_cons, List.map_append, List.sum_cons, List.sum_append]
  abel

/-- A new empty queue holds nothing. -/
theorem contents_insert_nil {m : QueueMap κ α} {k : κ} (h : m.lookup k = none) :
    contents (m.insert k []) = contents m := by
  rw [contents, AList.entries_insert_of_notMem (AList.lookup_eq_none.mp h), List.map_cons,
    List.sum_cons, Multiset.coe_nil, zero_add, contents]

end QueueMap

end Queues
