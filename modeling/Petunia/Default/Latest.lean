import Petunia.Default.Link
import Petunia.Lib.KeyedLog

set_option autoImplicit false

/-!
# Updates over the SQLite medium

An overwriting message rewrites, in place, the rows of its type. Read as a log of types and data,
inbox, unread rows and outbox then give every type the data of the last message pushed, as long as
an update rewrites a row that is still unread. An update that only rewrites rows which the receiver
has read and will delete is lost.

* `Link.flow`, `Link.Current`: the log, and that it gives every type its last pushed data;
* `KeepsUpdate`, `LinkAct.keepsUpdates`: the condition on a written message and on a step;
* **`latest_inbox_of_quiet`**: when such a run has come to rest, the receiver has the last data of
  every type; `update_lost_before_delete` is a run that comes to rest without it.
-/

namespace Petunia

open CTypes Lts Sql KeyedLog

/-- An overwriting message whose type has a row in the table has one that is still unread. -/
def KeepsUpdate (readUpTo : ℕ) (t : MessageTable) (m : Tagged Message) : Prop :=
  m.val.overwrite = true → (∃ r ∈ t.rows, r.val.val.type = m.val.getType) →
    ∃ r ∈ t.after readUpTo, r.val.val.type = m.val.getType

instance (n : ℕ) (t : MessageTable) (m : Tagged Message) : Decidable (KeepsUpdate n t m) :=
  inferInstanceAs (Decidable (_ → _ → _))

/-- A pushed message has fewer than `2 ^ 31` bytes; each `WriteSendingMessage` of a transaction
finds the table in a state that keeps its update. -/
def LinkAct.keepsUpdates (lim : Limits) (s : Link) : LinkAct → Prop
  | .push m => m.getDataSize < 2 ^ 31
  | .sendMessages => Along (writeSendingMessage lim) (KeepsUpdate s.readUpTo) s.table s.outbox
  | _ => True

instance (lim : Limits) (s : Link) : ∀ a : LinkAct, Decidable (a.keepsUpdates lim s)
  | .push m => inferInstanceAs (Decidable (m.getDataSize < 2 ^ 31))
  | .sendMessages => inferInstanceAs (Decidable (Along _ _ _ _))
  | .setOverwriteMode _ _ | .scan | .deleteOldMessages => isTrue trivial

namespace Link

/-- The types and data of the messages on their way or arrived, in order. -/
def flow (s : Link) : List (CString × Bytes) :=
  (s.inbox ++ s.unread ++ s.outbox).map fun m => m.val.view

/-- The types and data of the messages pushed. -/
def pushedViews (s : Link) : List (CString × Bytes) := s.pushed.map fun m => m.val.view

/-- The flow gives every type the data of the last message pushed. -/
structure Current (s : Link) : Prop where
  fits : ∀ m ∈ s.outbox, m.val.getDataSize < 2 ^ 31
  latest_flow : ∀ t, latest t s.flow = latest t s.pushedViews

/-- At rest: nothing in the outbox, no pending `DELETE`, an empty table. -/
def Quiet (s : Link) : Prop := s.outbox = [] ∧ s.reference = none ∧ s.table.rows = []

theorem view_overwriteBy (x y : Tagged Message) :
    (overwriteBy x y).val.view = assign x.val.getType x.val.getData y.val.view := by
  unfold overwriteBy assign Message.view
  split_ifs <;> rfl

/-- What a written message does to the log of the messages behind `xs`. -/
theorem latest_write {lim : Limits} {n : ℕ} {t t' : MessageTable} {m : Tagged Message}
    (hn : n ≤ t.lastId) (hfits : m.val.getDataSize < 2 ^ 31) (hkeep : KeepsUpdate n t m)
    (h : writeSendingMessage lim t m = some t') (xs ys : List (CString × Bytes)) (k : CString) :
    latest k (xs ++ ((t'.after n).map fun r => (readRow r.val).val.view) ++ ys) =
      latest k (xs ++ ((t.after n).map fun r => (readRow r.val).val.view) ++ m.val.view :: ys) := by
  obtain ⟨-, x, hx, -, ⟨ho, hex, hafter⟩ | hafter⟩ := after_writeSendingMessage hn h
  · have hview := hx.view_eq_iff.mpr hfits
    have hmap : ((t'.after n).map fun r => (readRow r.val).val.view) =
        ((t.after n).map fun r => (readRow r.val).val.view).map
          (assign m.val.getType m.val.getData) := by
      have h1 := congrArg (List.map fun m : Tagged Message => m.val.view) hafter
      rw [List.map_map, List.map_map, List.map_map] at h1
      rw [List.map_map]
      refine Eq.trans h1 (List.map_congr_left fun r _ => ?_)
      have h2 := view_overwriteBy x (readRow r.val)
      rw [(Prod.mk.inj hview).1, (Prod.mk.inj hview).2] at h2
      exact h2
    rw [hmap]
    refine latest_assign_eq_push ?_ xs ys k
    obtain ⟨r, hr, htype⟩ := hkeep ho hex
    exact ⟨_, List.mem_map_of_mem hr, (getType_createMessageFromRow r.val.val).trans htype⟩
  · have hmap : ((t'.after n).map fun r => (readRow r.val).val.view) =
        ((t.after n).map fun r => (readRow r.val).val.view) ++ [m.val.view] := by
      have h1 := congrArg (List.map fun m : Tagged Message => m.val.view) hafter
      rw [List.map_append, List.map_map, List.map_map, List.map_singleton,
        hx.view_eq_iff.mpr hfits] at h1
      exact h1
    rw [hmap]
    simp only [List.append_assoc, List.singleton_append]

theorem current_push {lim : Limits} {s s' : Link} {m : Message} (hs : s.Current)
    (hm : m.getDataSize < 2 ^ 31) (h : step lim s (.push m) = some s') : s'.Current := by
  rw [step_push h]
  refine ⟨fun x hx => ?_, fun t => ?_⟩
  · rcases List.mem_append.mp hx with hx | hx
    · exact hs.fits x hx
    · rw [List.mem_singleton.mp hx]; exact hm
  · have hflow : latest t (s.flow ++ [m.view]) = latest t (s.pushedViews ++ [m.view]) := by
      rw [latest_append, latest_append, hs.latest_flow]
    simpa [flow, pushedViews, unread, readUpTo] using hflow

theorem current_setOverwriteMode {lim : Limits} {s s' : Link} {i : ℕ} {b : Bool} (hs : s.Current)
    (h : step lim s (.setOverwriteMode i b) = some s') : s'.Current := by
  -- the flag is no part of what a receiver observes
  have hsize := map_outbox_setOverwriteMode h (fun m => m.val.getDataSize) fun _ => rfl
  have hview := map_outbox_setOverwriteMode h (fun m => m.val.view) fun _ => rfl
  have hs' := step_setOverwriteMode h
  refine ⟨fun x hx => ?_, fun t => ?_⟩
  · obtain ⟨y, hy, hxy⟩ := List.mem_map.mp (hsize ▸ List.mem_map_of_mem hx)
    exact hxy ▸ hs.fits y hy
  · have hflow : s'.flow = s.flow := by
      rw [flow, flow, List.map_append, @List.map_append _ _ _ (s.inbox ++ s.unread), hview, hs']
      rfl
    rw [hflow, hs.latest_flow t, hs']
    rfl

theorem current_sendMessages {lim : Limits} {s s' : Link} (hb : s.Bounded) (hs : s.Current)
    (hkeep : Along (writeSendingMessage lim) (KeepsUpdate s.readUpTo) s.table s.outbox)
    (h : step lim s .sendMessages = some s') : s'.Current := by
  obtain ⟨t', ht, rfl⟩ := step_sendMessages h
  refine ⟨by simp, fun k => ?_⟩
  set inbox := s.inbox.map fun m => m.val.view with hinbox
  -- the log of inbox, unread rows and the messages still to be written does not change its values
  have hrun := exec_induction (C := KeepsUpdate s.readUpTo)
    (I := fun t ms => s.readUpTo ≤ t.lastId ∧ (∀ m ∈ ms, m.val.getDataSize < 2 ^ 31) ∧
      latest k (inbox ++ ((t.after s.readUpTo).map fun r => (readRow r.val).val.view) ++
        ms.map fun m => m.val.view) = latest k s.pushedViews)
    (fun t m ms u hI hC hw => ?_) ht hkeep ⟨hb, hs.fits, ?_⟩
  · have hlast := hrun.2.2
    rw [List.map_nil, List.append_nil] at hlast
    rw [← show s.pushedViews = pushedViews { s with table := t', outbox := [] } from rfl, ← hlast]
    simp [flow, unread, readUpTo, hinbox, Function.comp_def]
  · obtain ⟨hn, hfits, hlast⟩ := hI
    refine ⟨(after_writeSendingMessage hn hw).1,
      fun x hx => hfits x (List.mem_cons_of_mem m hx), ?_⟩
    rw [latest_write hn (hfits m List.mem_cons_self) hC hw]
    exact hlast
  · rw [← hs.latest_flow k]
    simp [flow, unread, hinbox, Function.comp_def]

theorem current_step {lim : Limits} {s s' : Link} {a : LinkAct} (hb : s.Bounded) (hs : s.Current)
    (ha : a.keepsUpdates lim s) (h : step lim s a = some s') : s'.Current := by
  cases a with
  | push m => exact current_push hs ha h
  | setOverwriteMode i b => exact current_setOverwriteMode hs h
  | sendMessages => exact current_sendMessages hb hs ha h
  | scan =>
    obtain ⟨ho, hpu, -, hi, -⟩ := step_scan h
    refine ⟨by rw [ho]; exact hs.fits, fun t => ?_⟩
    rw [pushedViews, hpu, ← pushedViews, ← hs.latest_flow t, flow, flow, unread_of_scan h, hi, ho,
      List.append_nil]
  | deleteOldMessages =>
    obtain ⟨ho, hpu, hi, -, hu⟩ := step_deleteOldMessages h
    refine ⟨by rw [ho]; exact hs.fits, fun t => ?_⟩
    rw [pushedViews, hpu, ← pushedViews, ← hs.latest_flow t, flow, flow, hu, hi, ho]

theorem current_exec {lim : Limits} {s : Link} {as : List LinkAct}
    (h : exec (step lim) init as = some s)
    (ha : Along (step lim) (fun s a => a.keepsUpdates lim s) init as) : s.Current :=
  (exec_invariant_along (I := fun s => s.Bounded ∧ s.Current)
    (fun _ _ _ hs hC hstep => ⟨bounded_step hs.1 hstep, current_step hs.1 hs.2 hC hstep⟩)
    h ha ⟨Nat.zero_le _, by simp [init], fun _ => rfl⟩).2

/-- **No update is lost.** In a run whose transactions rewrite unread rows only, a link at rest has
delivered, for every type, the data of the last message sent. -/
theorem latest_inbox_of_quiet {lim : Limits} {s : Link} {as : List LinkAct}
    (h : exec (step lim) init as = some s)
    (ha : Along (step lim) (fun s a => a.keepsUpdates lim s) init as) (hq : s.Quiet)
    (t : CString) :
    latest t (s.inbox.map fun m => m.val.view) = latest t (s.pushed.map fun m => m.val.view) := by
  obtain ⟨ho, hr, ht⟩ := hq
  have hflow : s.flow = s.inbox.map fun m => m.val.view := by
    simp [flow, unread, Table.after, ho, ht]
  rw [← hflow]
  exact (current_exec h ha).latest_flow t

theorem latest_inbox_of_quiet_two :
    let s : Link := ⟨[], .empty, none, [⟨1, [116], [2], false⟩],
      [⟨0, [116], [1], true⟩, ⟨1, [116], [2], true⟩]⟩
    latest (cStr [116]) (s.inbox.map fun m => m.val.view) =
      latest (cStr [116]) (s.pushed.map fun m => m.val.view) :=
  latest_inbox_of_quiet (show exec (step .default) init [.updateMessage (.new [116] [1]), .sendMessages,
      .updateMessage (.new [116] [2]), .sendMessages, .scan, .deleteOldMessages] = some _
    from by decide +kernel) (by decide +kernel) ⟨rfl, rfl, rfl⟩ (cStr [116])

/-- **A lost update.** The second update rewrites the row that the receiver has read; the pending
`DELETE` removes it. -/
theorem update_lost_before_delete :
    ∃ s, exec (step .default) init [.updateMessage (.new [116] [1]), .sendMessages, .scan,
        .updateMessage (.new [116] [2]), .sendMessages, .deleteOldMessages] = some s ∧
      s.Quiet ∧ latest (cStr [116]) (s.inbox.map fun m => m.val.view) = some [1] ∧
      latest (cStr [116]) (s.pushed.map fun m => m.val.view) = some [2] :=
  ⟨⟨[], .empty, none, [⟨0, [116], [1], false⟩], [⟨0, [116], [1], true⟩, ⟨1, [116], [2], true⟩]⟩,
    by decide +kernel, ⟨rfl, rfl, rfl⟩, by decide, by decide⟩

end Link

end Petunia
