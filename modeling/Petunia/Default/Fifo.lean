import Mathlib.Data.List.Forall2
import Petunia.Default.Link

set_option autoImplicit false

/-!
# Plain messages over the SQLite medium

Without overwriting messages every written message has its own row, and the rows lie in the table
in the order of the pushes. The messages in the inbox and in the unread rows are therefore those
written, each once and in order, although sends may commit between a scan and its `DELETE` and
although row ids restart when the table becomes empty.

* `Link.Fifo`: inbox, unread rows and outbox make up the pushed messages;
* `Link.Accounted`, `accounted_exec`: the invariant, with the written messages accounted for one by
  one;
* **`fifo_iff_of_plain`**: the equation holds exactly as long as every written message has fewer
  than `2 ^ 31` bytes; `fifo_fails_long_message` is a run beyond that bound.
-/

namespace Petunia

open CTypes Lts Sql

/-- No step sets the overwrite flag of a message. -/
def LinkAct.plain : LinkAct → Prop
  | .push m => m.overwrite = false
  | .setOverwriteMode _ b => b = false
  | _ => True

/-- What a receiver can observe of a message, with the number of its call. -/
def Tagged.view (m : Tagged Message) : ℕ × CString × Bytes := (m.serial, m.val.view)

namespace Link

/-- **Exactly-once FIFO delivery**: the messages in the inbox, those in the unread rows and those in
the outbox are together the messages pushed, in order. -/
def Fifo (s : Link) : Prop :=
  (s.inbox ++ s.unread ++ s.outbox).map Tagged.view = s.pushed.map Tagged.view

/-- The messages that a committed transaction has written. -/
def written (s : Link) : List (Tagged Message) :=
  s.pushed.take (s.pushed.length - s.outbox.length)

/-- Every message of `w` has been delivered or waits unread, once and in order. -/
structure Accounted (lim : Limits) (s : Link) (w : List (Tagged Message)) : Prop where
  plain : ∀ m ∈ s.outbox, m.val.overwrite = false
  pushed : s.pushed = w ++ s.outbox
  delivered : List.Forall₂ (Delivered lim) w (s.inbox ++ s.unread)

theorem Accounted.written_eq {lim : Limits} {s : Link} {w : List (Tagged Message)}
    (h : Accounted lim s w) : s.written = w := by
  rw [written, h.pushed, List.length_append, Nat.add_sub_cancel, List.take_left']
  rfl

/-- A batch of plain messages puts its messages, in order, behind the unread rows. -/
theorem exec_plain {lim : Limits} {n : ℕ} {t t' : MessageTable} {ms : List (Tagged Message)}
    (hn : n ≤ t.lastId) (hms : ∀ m ∈ ms, m.val.overwrite = false)
    (h : exec (writeSendingMessage lim) t ms = some t') :
    ∃ xs, List.Forall₂ (Delivered lim) ms xs ∧
      (t'.after n).map (fun r => readRow r.val) =
        ((t.after n).map fun r => readRow r.val) ++ xs := by
  induction ms generalizing t with
  | nil => cases h; exact ⟨[], .nil, by simp⟩
  | cons m ms ih =>
    obtain ⟨u, hu, h⟩ := exec_cons_eq_some.mp h
    obtain ⟨hn', x, hx, -, ⟨ho, -⟩ | hafter⟩ := after_writeSendingMessage hn hu
    · rw [hms m List.mem_cons_self] at ho; exact Bool.noConfusion ho
    · obtain ⟨xs, hxs, heq⟩ := ih hn' (fun m hm => hms m (List.mem_cons_of_mem _ hm)) h
      exact ⟨x :: xs, .cons hx hxs, by rw [heq, hafter, List.append_assoc, List.singleton_append]⟩

theorem accounted_step {lim : Limits} {s s' : Link} {a : LinkAct} (hb : s.Bounded)
    (hs : ∃ w, Accounted lim s w) (ha : a.plain) (h : step lim s a = some s') :
    ∃ w, Accounted lim s' w := by
  obtain ⟨w, hp, hw, hd⟩ := hs
  cases a with
  | push m =>
    rw [step_push h]
    refine ⟨w, fun x hx => ?_, by simp [hw], hd⟩
    rcases List.mem_append.mp hx with hx | hx
    · exact hp x hx
    · rw [List.mem_singleton.mp hx]; exact ha
  | setOverwriteMode i b =>
    rw [step_setOverwriteMode h]
    have hid : (s.outbox.modify i fun m => { m with val := m.val.setOverwriteMode b }) =
        s.outbox := by
      -- the flag is cleared where it is clear already
      refine List.ext_getElem? fun j => ?_
      rw [List.getElem?_modify]
      cases hj : s.outbox[j]? with
      | none => rfl
      | some m =>
        have hm := hp m (List.mem_of_getElem? hj)
        have hbm : b = m.val.overwrite := Eq.trans ha hm.symm
        simp [Message.setOverwriteMode, hbm]
    exact ⟨w, by rw [hid]; exact hp, by rw [hid]; exact hw, hd⟩
  | sendMessages =>
    obtain ⟨t, ht, rfl⟩ := step_sendMessages h
    obtain ⟨xs, hxs, hafter⟩ := exec_plain hb hp ht
    refine ⟨w ++ s.outbox, by simp, by simpa using hw, ?_⟩
    change List.Forall₂ (Delivered lim) (w ++ s.outbox)
      (s.inbox ++ (t.after s.readUpTo).map fun r => readRow r.val)
    rw [hafter, ← List.append_assoc]
    exact List.rel_append hd hxs
  | scan =>
    obtain ⟨ho, hpu, -, hi, -⟩ := step_scan h
    refine ⟨w, by rwa [ho], by rwa [hpu, ho], ?_⟩
    rw [hi, unread_of_scan h, List.append_nil]
    exact hd
  | deleteOldMessages =>
    obtain ⟨ho, hpu, hi, -, hu⟩ := step_deleteOldMessages h
    exact ⟨w, by rwa [ho], by rwa [hpu, ho], by rwa [hi, hu]⟩

/-- **Every written message is accounted for**, after every run of plain messages. -/
theorem accounted_exec {lim : Limits} {s : Link} {as : List LinkAct}
    (h : exec (step lim) init as = some s) (ha : ∀ a ∈ as, a.plain) :
    ∃ w, Accounted lim s w := by
  refine (exec_invariant_along (C := fun _ a => a.plain)
    (I := fun s => s.Bounded ∧ ∃ w, Accounted lim s w) (fun s a s' hs hp hstep => ?_) h
    (along_of_forall fun a hmem _ => ha a hmem) ⟨Nat.zero_le _, [], ?_⟩).2
  · exact ⟨bounded_step hs.1 hstep, accounted_step hs.1 hs.2 hp hstep⟩
  · exact ⟨by simp [init], rfl, .nil⟩

/-- The delivered messages look like the written ones exactly below `2 ^ 31` bytes. -/
theorem map_view_eq_iff {lim : Limits} {w xs : List (Tagged Message)}
    (h : List.Forall₂ (Delivered lim) w xs) :
    xs.map Tagged.view = w.map Tagged.view ↔ ∀ m ∈ w, m.val.getDataSize < 2 ^ 31 := by
  induction h with
  | nil => simp
  | @cons m x w xs hx _ ih =>
    have hview : x.view = m.view ↔ m.val.getDataSize < 2 ^ 31 := by
      rw [Tagged.view, Tagged.view, hx.1, Prod.mk.injEq, and_iff_right rfl]
      exact hx.view_eq_iff
    rw [List.map_cons, List.map_cons, List.cons_eq_cons, hview, ih, List.forall_mem_cons]

theorem Accounted.fifo_iff {lim : Limits} {s : Link} {w : List (Tagged Message)}
    (h : Accounted lim s w) : s.Fifo ↔ ∀ m ∈ s.written, m.val.getDataSize < 2 ^ 31 := by
  rw [h.written_eq, ← map_view_eq_iff h.delivered, Fifo, h.pushed, List.map_append,
    @List.map_append _ _ _ w]
  exact List.append_left_inj _

/-- **Exactly-once FIFO delivery of plain messages.** In every state that a run of plain messages
reaches, inbox, unread rows and outbox make up the pushed messages, in order, if and only if every
message written so far has fewer than `2 ^ 31` bytes. -/
theorem fifo_iff_of_plain {lim : Limits} {s : Link} {as : List LinkAct}
    (h : exec (step lim) init as = some s) (ha : ∀ a ∈ as, a.plain) :
    s.Fifo ↔ ∀ m ∈ s.written, m.val.getDataSize < 2 ^ 31 := by
  obtain ⟨w, hw⟩ := accounted_exec h ha
  exact hw.fifo_iff

theorem fifo_iff_of_plain_two :
    let row : Tagged MessageRow := ⟨1, cStr [116], 1, [2], by decide⟩
    let s : Link := ⟨[], ⟨[⟨2, row⟩], by decide, by decide⟩, none, [⟨0, [116], [1], false⟩],
      [⟨0, [116], [1], false⟩, ⟨1, [116], [2], false⟩]⟩
    s.Fifo ↔ ∀ m ∈ s.written, m.val.getDataSize < 2 ^ 31 :=
  fifo_iff_of_plain (show exec (step .default) init [.sendMessage ⟨[116], [1], false⟩,
      .sendMessages, .scan, .sendMessage ⟨[116], [2], false⟩, .sendMessages, .deleteOldMessages] = some _
    from by decide +kernel) (by simp [LinkAct.sendMessage, LinkAct.plain])

/-- Every longer message that SQLite accepts breaks the equation as soon as it is written. -/
theorem not_fifo_of_long {lim : Limits} {m : Message} {row : MessageRow} (hp : m.overwrite = false)
    (hrow : bindMessage lim m = some row) (hfit : row.Fits lim) (hlong : 2 ^ 31 ≤ m.getDataSize) :
    ∃ s, exec (step lim) init [.sendMessage m, .sendMessages] = some s ∧ ¬ s.Fifo := by
  have hrun := exec_push_sendMessages hrow hfit
  have hplain : ∀ a ∈ [LinkAct.push m, .sendMessages], a.plain := by simp [LinkAct.plain, hp]
  obtain ⟨w, hw⟩ := accounted_exec hrun hplain
  refine ⟨_, hrun, fun hf => ?_⟩
  exact absurd (hw.fifo_iff.mp hf ⟨0, m⟩ (by simp [written])) (Nat.not_lt.mpr hlong)

/-- **A message of `2 ^ 32` bytes arrives empty**: its size converted to `int` is `0`. -/
theorem fifo_fails_long_message :
    ∃ s, exec (step .default) init
        [.sendMessage (.new [116] (List.replicate (2 ^ 32) 65)), .sendMessages] = some s ∧
      ¬ s.Fifo := by
  have key : ∀ d : Bytes, d.length = 2 ^ 32 →
      ∃ s, exec (step .default) init
        [.sendMessage (.new [116] d), .sendMessages] = some s ∧ ¬ s.Fifo := by
    intro d hd
    have hsize : (Message.new [116] d).getDataSize = 2 ^ 32 := hd
    obtain ⟨row, hrow, hfit, -⟩ := exists_bindMessage_two_pow hsize
      (by simp [Message.new, Message.getType, cStr, Limits.default, Limits.standard])
    exact not_fifo_of_long rfl hrow hfit (by rw [hsize]; decide)
  exact key _ List.length_replicate

end Link

end Petunia
