import Mathlib.Data.List.Nodup
import Mathlib.Data.List.Perm.Subperm
import Petunia.Default.Link

set_option autoImplicit false

/-!
# At most one delivery of an update

A row carries the number of the call that last wrote it. Inbox, unread rows and outbox never hold a
number twice, as long as an update rewrites at most one unread row. The `UPDATE` rewrites every row
of the type, so an update that finds two unread rows of its type is delivered twice.

* `RewritesOne`, `LinkAct.rewritesOne`: the condition on a written message and on a step;
* `Link.Distinct`, `distinct_exec`: no number occurs twice;
* **`update_at_most_once`**: such a run delivers every update at most once;
  `update_delivered_twice` is a run that delivers one twice.
-/

namespace Petunia

open CTypes Lts Sql

/-- The table has at most one unread row of the type of an overwriting message. -/
def RewritesOne (readUpTo : ℕ) (t : MessageTable) (m : Tagged Message) : Prop :=
  m.val.overwrite = true → (t.after readUpTo).countP (fun r => r.val.val.type = m.val.getType) ≤ 1

instance (n : ℕ) (t : MessageTable) (m : Tagged Message) : Decidable (RewritesOne n t m) :=
  inferInstanceAs (Decidable (_ → _))

/-- Each `WriteSendingMessage` of a transaction rewrites at most one unread row. -/
def LinkAct.rewritesOne (lim : Limits) (s : Link) : LinkAct → Prop
  | .sendMessages => Along (writeSendingMessage lim) (RewritesOne s.readUpTo) s.table s.outbox
  | _ => True

instance (lim : Limits) (s : Link) : ∀ a : LinkAct, Decidable (a.rewritesOne lim s)
  | .sendMessages => inferInstanceAs (Decidable (Along _ _ _ _))
  | .push _ | .setOverwriteMode _ _ | .scan | .deleteOldMessages => isTrue trivial

namespace Link

/-- The numbers of the calls whose messages are on their way or arrived. -/
def serials (s : Link) : List ℕ := (s.inbox ++ s.unread ++ s.outbox).map Tagged.serial

/-- No number occurs twice, and all were given to a call. -/
structure Distinct (s : Link) : Prop where
  nodup : s.serials.Nodup
  lt : ∀ i ∈ s.serials, i < s.pushed.length

/-- Every update has reached the receiver at most once. -/
def AtMostOnce (s : Link) : Prop :=
  ∀ m ∈ s.pushed, m.val.overwrite = true → (s.inbox.map Tagged.serial).count m.serial ≤ 1

theorem Distinct.atMostOnce {s : Link} (h : s.Distinct) : s.AtMostOnce := by
  intro m _ _
  have hsub : (s.inbox.map Tagged.serial).Sublist s.serials := by
    rw [serials, List.append_assoc]
    exact (List.sublist_append_left _ _).map _
  exact List.nodup_iff_count_le_one.mp (hsub.nodup h.nodup) m.serial

/-- Rewriting at most one message by `x` brings in the number of `x` at most once. -/
theorem map_overwriteBy_subperm {x : Tagged Message} {l : List (Tagged Message)}
    (h : l.countP (fun y => y.val.getType = x.val.getType) ≤ 1) :
    ((l.map (overwriteBy x)).map Tagged.serial).Subperm (x.serial :: l.map Tagged.serial) := by
  induction l with
  | nil => exact List.nil_subperm
  | cons y l ih =>
    rw [List.map_cons, List.map_cons, List.map_cons]
    by_cases hy : y.val.getType = x.val.getType
    · -- `y` is the one rewritten, the others keep their numbers
      have hl : ∀ z ∈ l, z.val.getType ≠ x.val.getType := by
        rw [List.countP_cons_of_pos (by simpa using hy)] at h
        have h0 : l.countP (fun y => y.val.getType = x.val.getType) = 0 := by omega
        simpa [List.countP_eq_zero] using h0
      have hid : l.map (overwriteBy x) = l :=
        (List.map_congr_left fun z hz => if_neg (hl z hz)).trans (List.map_id l)
      rw [overwriteBy, if_pos hy, hid]
      exact ((List.sublist_cons_self _ _).cons_cons _).subperm
    · rw [overwriteBy, if_neg hy]
      have ih := ih (by rwa [List.countP_cons_of_neg (by simpa using hy)] at h)
      exact ((List.subperm_cons _).mpr ih).trans (List.Perm.swap _ _ _).subperm

/-- **A written message brings in no number that it does not carry itself.** -/
theorem write_subperm {lim : Limits} {n : ℕ} {t t' : MessageTable} {m : Tagged Message} (hn : n ≤ t.lastId)
    (hone : RewritesOne n t m) (h : writeSendingMessage lim t m = some t') :
    (((t'.after n).map fun r => readRow r.val).map Tagged.serial).Subperm
      (m.serial :: ((t.after n).map fun r => readRow r.val).map Tagged.serial) := by
  obtain ⟨-, x, hx, htype, ⟨ho, -, hafter⟩ | hafter⟩ := after_writeSendingMessage hn h
  · rw [hafter, ← hx.1]
    refine map_overwriteBy_subperm ?_
    rw [List.countP_map, htype]
    refine le_trans (List.countP_mono_left fun r _ hr => ?_) (hone ho)
    simpa [readRow] using hr
  · rw [hafter, List.map_append, List.map_singleton, hx.1]
    exact (List.perm_append_singleton _ _).subperm

theorem distinct_of_subperm {s s' : Link} (hs : s.Distinct) (h : s'.serials.Subperm s.serials)
    (hp : s'.pushed = s.pushed) : s'.Distinct := by
  obtain ⟨l, hl, hsub⟩ := h
  refine ⟨hl.nodup_iff.mp (hsub.nodup hs.nodup), fun i hi => ?_⟩
  rw [hp]
  exact hs.lt i (hsub.subset (hl.mem_iff.mpr hi))

/-- A push: the number of the call is a new one. -/
theorem distinct_push {lim : Limits} {s s' : Link} {m : Message} (hs : s.Distinct)
    (h : step lim s (.push m) = some s') : s'.Distinct := by
  have hserials : s'.serials = s.serials ++ [s.pushed.length] := by
    rw [step_push h]; simp [serials, unread, readUpTo]
  refine ⟨?_, fun i hi => ?_⟩
  · rw [hserials, List.nodup_append]
    refine ⟨hs.nodup, List.nodup_singleton _, fun i hi j hj => ?_⟩
    rw [List.mem_singleton.mp hj]
    exact (hs.lt i hi).ne
  · rw [step_push h, List.length_append, List.length_singleton]
    rw [hserials, List.mem_append, List.mem_singleton] at hi
    rcases hi with hi | rfl
    · exact Nat.lt_succ_of_lt (hs.lt i hi)
    · exact Nat.lt_succ_self _

/-- A batch: the numbers in the unread rows and in the messages still to be written only get
fewer. -/
theorem distinct_sendMessages {lim : Limits} {s s' : Link} (hb : s.Bounded) (hs : s.Distinct)
    (ha : LinkAct.sendMessages.rewritesOne lim s) (h : step lim s .sendMessages = some s') :
    s'.Distinct := by
  obtain ⟨t', ht, rfl⟩ := step_sendMessages h
  have hrun := exec_induction (C := RewritesOne s.readUpTo)
    (I := fun t ms => s.readUpTo ≤ t.lastId ∧
      (((t.after s.readUpTo).map fun r => readRow r.val).map Tagged.serial ++
        ms.map Tagged.serial).Subperm ((s.unread ++ s.outbox).map Tagged.serial))
    (fun t m ms u hI hC hw => ?_) ht ha ⟨hb, ?_⟩
  · refine distinct_of_subperm hs ?_ rfl
    have hsub := hrun.2
    rw [List.map_nil, List.append_nil] at hsub
    simp only [serials, List.append_assoc, List.map_append]
    refine (List.subperm_append_left _).mpr ?_
    rw [← @List.map_append _ _ _ s.unread]
    simpa [unread, readUpTo] using hsub
  · refine ⟨(after_writeSendingMessage hI.1 hw).1, List.Subperm.trans ?_ hI.2⟩
    rw [List.map_cons]
    exact ((List.subperm_append_right _).mpr (write_subperm hI.1 hC hw)).trans
      List.perm_middle.symm.subperm
  · rw [List.map_append, unread]

theorem distinct_step {lim : Limits} {s s' : Link} {a : LinkAct} (hb : s.Bounded) (hs : s.Distinct)
    (ha : a.rewritesOne lim s) (h : step lim s a = some s') : s'.Distinct := by
  cases a with
  | push m => exact distinct_push hs h
  | setOverwriteMode i b =>
    have hmap := map_outbox_setOverwriteMode h Tagged.serial fun _ => rfl
    have hs' := step_setOverwriteMode h
    refine distinct_of_subperm hs (List.Perm.subperm (.of_eq ?_)) (by rw [hs'])
    rw [serials, serials, List.map_append, @List.map_append _ _ _ (s.inbox ++ s.unread), hmap, hs']
    rfl
  | sendMessages => exact distinct_sendMessages hb hs ha h
  | scan =>
    obtain ⟨ho, hpu, -, hi, -⟩ := step_scan h
    refine distinct_of_subperm hs (List.Perm.subperm (.of_eq ?_)) hpu
    rw [serials, serials, unread_of_scan h, hi, ho, List.append_nil]
  | deleteOldMessages =>
    obtain ⟨ho, hpu, hi, -, hu⟩ := step_deleteOldMessages h
    exact distinct_of_subperm hs (List.Perm.subperm (.of_eq (by rw [serials, serials, ho, hi, hu])))
      hpu

theorem distinct_exec {lim : Limits} {s : Link} {as : List LinkAct}
    (h : exec (step lim) init as = some s)
    (ha : Along (step lim) (fun s a => a.rewritesOne lim s) init as) : s.Distinct :=
  (exec_invariant_along (I := fun s => s.Bounded ∧ s.Distinct)
    (fun _ _ _ hs hC hstep => ⟨bounded_step hs.1 hstep, distinct_step hs.1 hs.2 hC hstep⟩)
    h ha ⟨Nat.zero_le _, List.nodup_nil,
      by simp [init, serials, unread, Table.after, Table.empty]⟩).2

/-- **An update is delivered at most once**, in every run whose updates rewrite at most one unread
row each. -/
theorem update_at_most_once {lim : Limits} {s : Link} {as : List LinkAct}
    (h : exec (step lim) init as = some s)
    (ha : Along (step lim) (fun s a => a.rewritesOne lim s) init as) : s.AtMostOnce :=
  (distinct_exec h ha).atMostOnce

theorem update_at_most_once_two :
    (⟨[], ⟨[⟨1, ⟨1, cStr [116], 1, [2], by decide⟩⟩], by decide, by decide⟩, some 1,
      [⟨1, [116], [2], false⟩],
      [⟨0, [116], [1], false⟩, ⟨1, [116], [2], true⟩]⟩ : Link).AtMostOnce :=
  update_at_most_once (show exec (step .default) init [.sendMessage (.new [116] [1]),
      .updateMessage (.new [116] [2]), .sendMessages, .scan] = some _ from by decide +kernel)
    (by decide +kernel)

/-- **An update delivered twice.** It rewrites the rows of two plain messages of its type. -/
theorem update_delivered_twice :
    ∃ s, exec (step .default) init [.sendMessage (.new [116] [1]), .sendMessage (.new [116] [2]),
        .updateMessage (.new [116] [3]), .sendMessages, .scan] = some s ∧
      ⟨2, [116], [3], true⟩ ∈ s.pushed ∧ (s.inbox.map Tagged.serial).count 2 = 2 ∧
      ¬ s.AtMostOnce :=
  ⟨⟨[], ⟨[⟨1, ⟨2, cStr [116], 1, [3], by decide⟩⟩, ⟨2, ⟨2, cStr [116], 1, [3], by decide⟩⟩],
      by simp, by simp⟩, some 2, [⟨2, [116], [3], false⟩, ⟨2, [116], [3], false⟩],
      [⟨0, [116], [1], false⟩, ⟨1, [116], [2], false⟩, ⟨2, [116], [3], true⟩]⟩,
    by decide +kernel, by decide, by decide, fun h =>
      absurd (h ⟨2, [116], [3], true⟩ (by decide) rfl) (by decide)⟩

end Link

end Petunia
