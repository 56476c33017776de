import Mathlib.Data.List.Basic
import Mathlib.Data.Prod.Basic
import Mathlib.Tactic.SplitIfs

set_option autoImplicit false

/-!
# Logs of keyed values

A log lists pairs of a key and a value, the newest last; `latest k` is the value it gives the key
`k`. A value may also be assigned in place, to every entry of its key.

* `latest`, `latest_append`: the later part of a log decides;
* `assign`, `latest_map_assign`: what an assignment in place does;
* **`latest_assign_eq_push`**: where the key occurs, assigning in place gives every key the value
  that pushing behind gives it;
* `upsert`, **`foldl_upsert_eq_iff`**: assigning in place where the key occurs, else pushing behind,
  and when a sequence of these leaves the log that pushing alone leaves.
-/

namespace KeyedLog

variable {κ υ : Type*} [DecidableEq κ]

/-- The value that the log gives the key `k`. -/
def latest (k : κ) (l : List (κ × υ)) : Option υ :=
  (l.filter fun p => p.1 = k).getLast?.map Prod.snd

/-- Assign `v` to an entry of the key `k`. -/
def assign (k : κ) (v : υ) (p : κ × υ) : κ × υ := if p.1 = k then (k, v) else p

theorem latest_append (k : κ) (xs ys : List (κ × υ)) :
    latest k (xs ++ ys) = (latest k ys).or (latest k xs) := by
  simp only [latest, List.filter_append, List.getLast?_append]
  cases (ys.filter fun p => p.1 = k).getLast? <;> rfl

theorem latest_cons (k : κ) (p : κ × υ) (l : List (κ × υ)) :
    latest k (p :: l) = (latest k l).or (if p.1 = k then some p.2 else none) := by
  rw [← List.singleton_append, latest_append]
  congr 1
  by_cases h : p.1 = k <;> simp [latest, h]

theorem fst_assign (k : κ) (v : υ) (p : κ × υ) : (assign k v p).1 = p.1 := by
  unfold assign
  split_ifs with h
  · exact h.symm
  · rfl

theorem latest_map_assign_of_ne {k k' : κ} (h : k' ≠ k) (v : υ) (l : List (κ × υ)) :
    latest k' (l.map (assign k v)) = latest k' l := by
  induction l with
  | nil => rfl
  | cons p l ih =>
    rw [List.map_cons, latest_cons, latest_cons, ih, fst_assign]
    congr 1
    split_ifs with hp
    · rw [assign, if_neg fun hk => h (hp.symm.trans hk)]
    · rfl

theorem latest_map_assign {k : κ} {v : υ} {l : List (κ × υ)} (h : ∃ p ∈ l, p.1 = k) :
    latest k (l.map (assign k v)) = some v := by
  induction l with
  | nil => simp at h
  | cons p l ih =>
    rw [List.map_cons, latest_cons, fst_assign]
    by_cases hl : ∃ p ∈ l, p.1 = k
    · rw [ih hl, Option.some_or]
    · -- the key occurs at the head only, so the tail gives it no value
      have hnone : latest k (l.map (assign k v)) = none := by
        simp only [latest, Option.map_eq_none_iff, List.getLast?_eq_none_iff,
          List.filter_eq_nil_iff, List.mem_map]
        rintro _ ⟨q, hq, rfl⟩
        rw [fst_assign]
        simpa using fun hk => hl ⟨q, hq, hk⟩
      obtain ⟨q, hq, hqk⟩ := h
      rcases List.mem_cons.mp hq with rfl | hq
      · rw [hnone, Option.none_or, if_pos hqk, assign, if_pos hqk]
      · exact absurd ⟨q, hq, hqk⟩ hl

/-- **Assigning in place or pushing behind.** If the key occurs in `l`, the two give every key the
same value, whatever is pushed later. -/
theorem latest_assign_eq_push {k : κ} {v : υ} {l : List (κ × υ)} (h : ∃ p ∈ l, p.1 = k)
    (xs ys : List (κ × υ)) (k' : κ) :
    latest k' (xs ++ l.map (assign k v) ++ ys) = latest k' (xs ++ l ++ (k, v) :: ys) := by
  simp only [latest_append, latest_cons]
  by_cases hk : k' = k
  · subst hk
    rw [latest_map_assign h, if_pos rfl]
    cases latest k' ys <;> rfl
  · rw [latest_map_assign_of_ne hk, if_neg (Ne.symm hk), Option.or_none]

/-! ## Assign or push -/

/-- If it is an update whose key occurs, assign in place, else push behind. -/
def upsert (l : List (κ × υ)) (m : Bool × κ × υ) : List (κ × υ) :=
  if m.1 = true ∧ ∃ p ∈ l, p.1 = m.2.1 then l.map (assign m.2.1 m.2.2) else l ++ [m.2]

theorem upsert_of_fresh {l : List (κ × υ)} {m : Bool × κ × υ}
    (h : m.1 = true → ∀ p ∈ l, p.1 ≠ m.2.1) : upsert l m = l ++ [m.2] :=
  if_neg fun hm => by
    obtain ⟨p, hp, hk⟩ := hm.2
    exact h hm.1 p hp hk

theorem length_upsert_le (l : List (κ × υ)) (m : Bool × κ × υ) :
    (upsert l m).length ≤ l.length + 1 := by
  unfold upsert
  split_ifs
  · exact Nat.le_succ_of_le (Nat.le_of_eq (List.length_map _))
  · exact Nat.le_of_eq List.length_append

theorem length_foldl_upsert_le (ms : List (Bool × κ × υ)) (l : List (κ × υ)) :
    (ms.foldl upsert l).length ≤ l.length + ms.length := by
  induction ms generalizing l with
  | nil => exact Nat.le_refl _
  | cons m ms ih =>
    have h1 := length_upsert_le l m
    have h2 := ih (upsert l m)
    rw [List.foldl_cons, List.length_cons]
    omega

/-- **When every entry is pushed.** A sequence of updates and plain entries leaves the log that
pushing all of them leaves if and only if no update finds its key. -/
theorem foldl_upsert_eq_iff (ms : List (Bool × κ × υ)) (l : List (κ × υ)) :
    ms.foldl upsert l = l ++ ms.map Prod.snd ↔
      (∀ m ∈ ms, m.1 = true → ∀ p ∈ l, p.1 ≠ m.2.1) ∧
        ms.Pairwise fun a b => b.1 = true → a.2.1 ≠ b.2.1 := by
  induction ms generalizing l with
  | nil => simp
  | cons m ms ih =>
    rw [List.foldl_cons, List.forall_mem_cons, List.pairwise_cons]
    by_cases hm : m.1 = true → ∀ p ∈ l, p.1 ≠ m.2.1
    · have happ : l ++ (m :: ms).map Prod.snd = l ++ [m.2] ++ ms.map Prod.snd := by simp
      rw [upsert_of_fresh hm, happ, ih]
      constructor
      · rintro ⟨hall, hpair⟩
        refine ⟨⟨hm, fun b hb ho p hp => ?_⟩, fun b hb ho => ?_, hpair⟩
        · exact hall b hb ho p (List.mem_append_left _ hp)
        · exact hall b hb ho m.2 (List.mem_append_right _ (List.mem_singleton.mpr rfl))
      · rintro ⟨⟨-, hall⟩, hhead, hpair⟩
        refine ⟨fun b hb ho p hp => ?_, hpair⟩
        rcases List.mem_append.mp hp with hp | hp
        · exact hall b hb ho p hp
        · rw [List.mem_singleton.mp hp]
          exact hhead b hb ho
    · -- the update is assigned in place, and an entry is missing
      refine iff_of_false (fun h => ?_) fun h => hm h.1.1
      have hlen : (upsert l m).length = l.length := by
        rw [upsert, if_pos, List.length_map]
        push Not at hm
        exact ⟨hm.1, hm.2⟩
      have h1 := length_foldl_upsert_le ms (upsert l m)
      have h2 := congrArg List.length h
      simp only [List.length_append, List.length_map, List.length_cons] at h2
      omega

end KeyedLog
