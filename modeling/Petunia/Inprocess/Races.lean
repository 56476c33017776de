import Petunia.Inprocess.Accesses
import Petunia.Inprocess.LockOrder

set_option autoImplicit false

/-!
# No races between the threads

* `Thread.Knows`: what a thread has found out and still relies on;
* `Process.Effect`, **`step_effect`**: what one step does to locks and objects;
* `Process.Guarded`, **`guarded_step`**: the lock of an object is owned by the thread that uses it;
* **`race_free`**: no two threads use one object at a time;
* **`threads_conserve`**: nothing is lost or duplicated, however the threads interleave.
-/

namespace Petunia.Inprocess

open CTypes Lts LockOrder Queues

variable {w w' : World Message} {objects : List Shared}

/-! ## What a thread knows between its steps -/

/-- The map of the send thread's next exchange is that of its endpoint. -/
def SendPc.Knows (w : World Message) (i : ℕ) : SendPc → Prop
  | .sendMessages d => ∃ e : Endpoint (Entry Message), w.endpoints[i]? = some e ∧ e.sends = d
  | _ => True

/-- The map of the receive thread's next exchange is that of its endpoint. -/
def ReceivePc.Knows (w : World Message) (i : ℕ) : ReceivePc → Prop
  | .receiveMessages d => ∃ e : Endpoint (Entry Message), w.endpoints[i]? = some e ∧ e.receives = d
  | _ => True

/-- The queues that a construction has made sure of are there. -/
def UserPc.Knows (w : World Message) : UserPc → Prop
  | .ensuring c _ .toServer .release => w.Has .toServer c
  | .ensuring c _ .toClient .release => w.Has .toServer c ∧ w.Has .toClient c
  | .ensuring c _ .toClient _ => w.Has .toServer c
  | .startMQThread c _ => w.Has .toServer c ∧ w.Has .toClient c
  | _ => True

/-- What a thread has found out and its next steps rely on. -/
def Thread.Knows (w : World Message) : ∀ t : Thread, t.Pc → Prop
  | .send i, pc => SendPc.Knows w i pc
  | .receive i, pc => ReceivePc.Knows w i pc
  | .user _, pc => UserPc.Knows w pc

/-- **What a thread knows stays true** whatever the others do. -/
theorem Works.knows (h : Works w objects w') {t : Thread} {pc : t.Pc} (hk : t.Knows w pc) :
    t.Knows w' pc := by
  cases t with
  | send i =>
    cases (pc : SendPc) with
    | sendMessages d =>
      obtain ⟨e, he, rfl⟩ := hk
      obtain ⟨e', he', hs, -⟩ := h.roles i e he
      exact ⟨e', he', hs⟩
    | _ => trivial
  | receive i =>
    cases (pc : ReceivePc) with
    | receiveMessages d =>
      obtain ⟨e, he, rfl⟩ := hk
      obtain ⟨e', he', -, hr⟩ := h.roles i e he
      exact ⟨e', he', hr⟩
    | _ => trivial
  | user n =>
    cases (pc : UserPc) with
    | ensuring c role d pc =>
      cases d with
      | toServer =>
        cases pc with
        | release => exact h.has _ _ hk
        | acquire | insert => trivial
      | toClient =>
        cases pc with
        | release => exact ⟨h.has _ _ hk.1, h.has _ _ hk.2⟩
        | acquire | insert => exact h.has _ _ hk
    | startMQThread c role => exact ⟨h.has _ _ hk.1, h.has _ _ hk.2⟩
    | idle | calling => trivial

namespace Process

variable {s s' : Process} {t : Thread}

/-- What one step of a thread does: it goes on, takes a lock, leaves one, notifies a send thread, or
works on the objects that it uses. -/
inductive Effect (s : Process) (t : Thread) : Process → Prop
  | goto (pc : t.Pc) (hh : ∀ l, l ∈ t.holds pc → l ∈ t.holds (s.pc t)) (hk : t.Knows s.world pc) :
    Effect s t (s.goto t pc)
  | lock (l : Lock) (pc : t.Pc) (hl : s.owner l = none)
    (hh : ∀ l', l' ∈ t.holds pc → l' ∈ t.holds (s.pc t) ∨ l' = l) (hk : t.Knows s.world pc) :
    Effect s t ({ s with owner := Function.update s.owner l (some t) }.goto t pc)
  | unlock (l : Lock) (pc : t.Pc) (hl : l ∈ t.holds (s.pc t)) (hl' : l ∉ t.holds pc)
    (hh : ∀ l', l' ∈ t.holds pc → l' ∈ t.holds (s.pc t)) (hk : t.Knows s.world pc) :
    Effect s t (s.unlock l t pc)
  | notify (i : ℕ) (pc : t.Pc) (hh : ∀ l, l ∈ t.holds pc → l ∈ t.holds (s.pc t))
    (hk : t.Knows s.world pc) : Effect s t ((s.notifyAll i).goto t pc)
  | work (world : World Message) (pc : t.Pc) (hw : Works s.world (t.accesses (s.pc t)) world)
    (hh : ∀ l, l ∈ t.holds pc → l ∈ t.holds (s.pc t)) (hk : t.Knows world pc) :
    Effect s t ({ s with world }.goto t pc)

theorem Effect.of_lock {l : Lock} {pc : t.Pc} (h : s.lock l t pc = some s')
    (hh : ∀ l', l' ∈ t.holds pc → l' ∈ t.holds (s.pc t) ∨ l' = l) (hk : t.Knows s.world pc) :
    Effect s t s' := by
  unfold Process.lock at h
  split_ifs at h with hl
  obtain rfl := Option.some.inj h
  exact .lock l pc hl hh hk

/-- Inside `SendMessage`, called by a thread that holds the mutexes of `held` besides. -/
theorem effect_callStep {c : Call} {next : Option CallPc → t.Pc} {pc : CallPc} (held : List Lock)
    (h : s.callStep t c next pc = some s') (hpc : t.holds (s.pc t) = pc.holds c ++ held)
    (hacc : t.accesses (s.pc t) = pc.accesses c)
    (hcall : ∀ pc', t.holds (next (some pc')) = pc'.holds c ++ held)
    (hret : t.holds (next none) = held) (hheld : .send c.target ∉ held)
    (hk : ∀ w pc', t.Knows w (next pc')) : Effect s t s' := by
  cases pc with
  | acquire =>
    refine .of_lock h (fun l' hl' => ?_) (hk _ _)
    rw [hcall, CallPc.holds, List.singleton_append, List.mem_cons] at hl'
    rw [hpc]
    exact hl'.symm
  | push =>
    obtain ⟨w, hw, rfl⟩ := Option.map_eq_some_iff.mp h
    refine .work w _ (hacc ▸ works_sendMessage hw) (fun l hl => ?_) (hk _ _)
    rw [hcall] at hl
    rwa [hpc]
  | notify =>
    obtain rfl := Option.some.inj h
    refine .notify c.target _ (fun l hl => ?_) (hk _ _)
    rw [hcall] at hl
    rwa [hpc]
  | release =>
    obtain rfl := Option.some.inj h
    refine .unlock _ _ ?_ (hret ▸ hheld) (fun l hl => ?_) (hk _ _)
    · rw [hpc]
      exact List.mem_cons_self
    · rw [hret] at hl
      rw [hpc]
      exact List.mem_append_right _ hl

section

attribute [local simp] Thread.holds SendPc.holds ReceivePc.holds UserPc.holds EnsurePc.holds
  CallPc.holds

theorem effect_sendStep {i : ℕ} (hk : (Thread.send i).Knows s.world (s.pc (.send i)))
    (h : s.sendStep i = some s') : Effect s (.send i) s' := by
  obtain ⟨e, he, h⟩ := Option.bind_eq_some_iff.mp h
  split at h
  · next hp => exact .of_lock h (by simp) trivial
  · next hp =>
    obtain rfl := Option.some.inj h
    refine .goto _ ?_ ?_
    · rw [hp]
      split_ifs <;> simp
    · split_ifs <;> trivial
  · next hp =>
    obtain rfl := Option.some.inj h
    exact .unlock _ _ (by rw [hp]; simp) (by simp) (by simp) trivial
  · next hp =>
    obtain rfl := Option.some.inj h
    exact .goto _ (by simp) trivial
  · next hp => exact .of_lock h (by rw [hp]; simp) ⟨e, he, rfl⟩
  · next d hp =>
    obtain ⟨r, hr, rfl⟩ := Option.map_eq_some_iff.mp h
    -- the lock of the map is that of the endpoint's direction
    rw [hp] at hk
    obtain ⟨f, hf, rfl⟩ := hk
    obtain rfl := Option.some.inj (he.symm.trans hf)
    refine .work r.2 _ ?_ (by rw [hp]; simp) trivial
    rw [hp]
    exact works_sendMessages he hr
  · next d hp =>
    obtain rfl := Option.some.inj h
    exact .unlock _ _ (by rw [hp]; simp) (by simp) (by rw [hp]; simp) trivial
  · next hp =>
    obtain rfl := Option.some.inj h
    exact .unlock _ _ (by rw [hp]; simp) (by simp) (by simp) trivial

theorem effect_receiveStep {i : ℕ} {call : Option Call}
    (hk : (Thread.receive i).Knows s.world (s.pc (.receive i)))
    (h : s.receiveStep i call = some s') : Effect s (.receive i) s' := by
  obtain ⟨e, he, h⟩ := Option.bind_eq_some_iff.mp h
  split at h
  · next hp => exact .of_lock h (by simp) trivial
  · next hp => exact .of_lock h (by rw [hp]; simp) ⟨e, he, rfl⟩
  · next d hp =>
    obtain ⟨r, hr, rfl⟩ := Option.map_eq_some_iff.mp h
    rw [hp] at hk
    obtain ⟨f, hf, rfl⟩ := hk
    obtain rfl := Option.some.inj (he.symm.trans hf)
    refine .work r.2 _ ?_ (by rw [hp]; simp) trivial
    rw [hp]
    exact works_receiveMessages he hr
  · next d received hp =>
    obtain rfl := Option.some.inj h
    refine .unlock _ _ (by rw [hp]; simp) ?_ ?_ ?_
    · split_ifs <;> simp
    · rw [hp]
      split_ifs <;> simp
    · split_ifs <;> trivial
  · next hp =>
    split at h
    · obtain rfl := Option.some.inj h
      exact .goto _ (by rw [hp]; simp) trivial
    · next m inbox hi =>
      obtain rfl := Option.some.inj h
      refine .work _ _ ?_ (by rw [hp]; simp) trivial
      rw [hp]
      exact works_pop he hi
  · next hp =>
    split at h
    · obtain rfl := Option.some.inj h
      exact .goto _ (by rw [hp]; simp) trivial
    · split_ifs at h
      obtain rfl := Option.some.inj h
      exact .goto _ (by rw [hp]; simp) trivial
  · next c pc hp =>
    refine effect_callStep [.receive i] h (by rw [hp]; rfl) (by rw [hp]; rfl) (fun _ => rfl) rfl
      (by simp) fun w pc' => ?_
    cases pc' <;> trivial
  · next hp =>
    obtain rfl := Option.some.inj h
    exact .unlock _ _ (by rw [hp]; simp) (by simp) (by simp) trivial

theorem effect_userStep {n : ℕ} (hk : (Thread.user n).Knows s.world (s.pc (.user n)))
    (h : s.userStep n = some s') : Effect s (.user n) s' := by
  unfold userStep at h
  split at h
  · cases h
  · next c pc hp =>
    refine effect_callStep [] h (by rw [hp]; simp) (by rw [hp]; rfl) (fun _ => by simp) rfl
      (by simp) fun w pc' => ?_
    cases pc' <;> trivial
  · next channel role d hp =>
    rw [hp] at hk
    refine .of_lock h (by simp) ?_
    cases d with
    | toServer => trivial
    | toClient => exact hk
  · next channel role d hp =>
    obtain rfl := Option.some.inj h
    rw [hp] at hk
    refine .work _ _ ?_ (by rw [hp]; simp) ?_
    · rw [hp]
      exact works_ensure s.world channel d
    · have hnew : World.Has (s.ensure channel d).world d channel := by
        rw [World.Has, ensure, Maps.get_set_self]
        exact isSome_lookup_ensureChannelExists channel _
      cases d with
      | toServer => exact hnew
      | toClient => exact ⟨(works_ensure s.world channel .toClient).has _ _ hk, hnew⟩
  · next channel role d hp =>
    obtain rfl := Option.some.inj h
    rw [hp] at hk
    cases d with
    | toServer => exact .unlock _ _ (by rw [hp]; simp) (by simp) (by simp) hk
    | toClient => exact .unlock _ _ (by rw [hp]; simp) (by simp) (by simp) hk
  · next channel role hp =>
    obtain rfl := Option.some.inj h
    rw [hp] at hk
    refine .work _ _ ?_ (by simp) trivial
    rw [hp]
    exact works_construct hk.1 hk.2

/-- **What one step does.** -/
theorem step_effect {a : ProcessAct} (hk : ∀ t : Thread, t.Knows s.world (s.pc t))
    (h : s.step a = some s') : Effect s a.thread s' := by
  cases a with
  | send i => exact effect_sendStep (hk _) h
  | receive i call => exact effect_receiveStep (hk _) h
  | call n c =>
    simp only [step] at h
    split at h
    · next hp =>
      split_ifs at h
      obtain rfl := Option.some.inj h
      exact .goto _ (by simp [ProcessAct.thread]) trivial
    · cases h
  | construct n channel role =>
    simp only [step] at h
    split at h
    · next hp =>
      split_ifs at h
      obtain rfl := Option.some.inj h
      exact .goto _ (by simp [ProcessAct.thread]) trivial
    · cases h
  | user n => exact effect_userStep (hk _) h

end

/-! ## Runs -/

/-- What holds of locks and objects at any time. -/
structure Guarded (s : Process) : Prop where
  knows : ∀ t : Thread, t.Knows s.world (s.pc t)
  exclusive : Exclusive s.owner fun t l => l ∈ t.holds (s.pc t)
  conserves : s.world.Conserves

theorem guarded_init : init.Guarded where
  knows t := by cases t <;> trivial
  exclusive t l h := by
    cases t <;> exact absurd h List.not_mem_nil
  conserves := World.conserves_init

@[simp] theorem pc_goto_self (s : Process) (t : Thread) (pc : t.Pc) : (s.goto t pc).pc t = pc :=
  Function.update_self t pc s.pc

theorem pc_goto_of_ne {pc : t.Pc} {u : Thread} (h : u ≠ t) : (s.goto t pc).pc u = s.pc u :=
  Function.update_of_ne h pc s.pc

/-- The locks of a thread that has gone on, and those of the others. -/
theorem mem_holds_goto {pc : t.Pc} {u : Thread} {l : Lock} (h : l ∈ u.holds ((s.goto t pc).pc u)) :
    u = t ∧ l ∈ t.holds pc ∨ u ≠ t ∧ l ∈ u.holds (s.pc u) := by
  by_cases hu : u = t
  · subst hu
    rw [pc_goto_self] at h
    exact .inl ⟨rfl, h⟩
  · rw [pc_goto_of_ne hu] at h
    exact .inr ⟨hu, h⟩

theorem knows_goto {w : World Message} {pc : t.Pc} (hk : ∀ u : Thread, u.Knows w (s.pc u))
    (hpc : t.Knows w pc) (u : Thread) : u.Knows w ((s.goto t pc).pc u) := by
  by_cases hu : u = t
  · subst hu
    rwa [pc_goto_self]
  · rw [pc_goto_of_ne hu]
    exact hk u

theorem knows_notifyAll {w : World Message} (hk : ∀ u : Thread, u.Knows w (s.pc u)) (i : ℕ) :
    ∀ u : Thread, u.Knows w ((s.notifyAll i).pc u) := by
  unfold notifyAll
  split_ifs
  · exact knows_goto hk trivial
  · exact hk

theorem world_notifyAll (s : Process) (i : ℕ) : (s.notifyAll i).world = s.world := by
  unfold notifyAll
  split_ifs <;> rfl

theorem owner_notifyAll (s : Process) (i : ℕ) : (s.notifyAll i).owner = s.owner := by
  unfold notifyAll
  split_ifs <;> rfl

/-- A thread goes on with locks that it had. -/
theorem exclusive_goto {owner : Lock → Option Thread} {pc : t.Pc}
    (h : Exclusive owner fun u l => l ∈ u.holds (s.pc u))
    (hh : ∀ l, l ∈ t.holds pc → l ∈ t.holds (s.pc t)) :
    Exclusive owner fun u l => l ∈ u.holds ((s.goto t pc).pc u) :=
  h.mono fun u l hl => by
    rcases mem_holds_goto hl with ⟨rfl, hpc⟩ | ⟨-, hold⟩
    · exact hh l hpc
    · exact hold

/-- **One step keeps locks and objects in order.** -/
theorem guarded_step {a : ProcessAct} (hs : s.Guarded) (h : s.step a = some s') : s'.Guarded := by
  obtain ⟨hknows, hex, hc⟩ := hs
  cases step_effect hknows h with
  | goto pc hh hk => exact ⟨knows_goto hknows hk, exclusive_goto hex hh, hc⟩
  | lock l pc hl hh hk =>
    refine ⟨knows_goto hknows hk, hex.acquire hl fun u l' hl' => ?_, hc⟩
    rcases mem_holds_goto hl' with ⟨rfl, hpc⟩ | ⟨-, hold⟩
    · exact (hh l' hpc).imp_right fun he => ⟨rfl, he⟩
    · exact .inl hold
  | unlock l pc hl hl' hh hk =>
    refine ⟨knows_goto hknows hk, hex.release hl (fun u l' hu => ?_) fun hu => ?_, hc⟩
    · rcases mem_holds_goto hu with ⟨rfl, hpc⟩ | ⟨-, hold⟩
      · exact hh l' hpc
      · exact hold
    · rcases mem_holds_goto hu with ⟨-, hpc⟩ | ⟨hne, -⟩
      · exact hl' hpc
      · exact hne rfl
  | notify i pc hh hk =>
    refine ⟨?_, ?_, ?_⟩
    · have := knows_goto (s := s.notifyAll i) (knows_notifyAll hknows i) hk
      rwa [← world_notifyAll s i] at this
    · have hex' : Exclusive (s.notifyAll i).owner fun u l => l ∈ u.holds ((s.notifyAll i).pc u) := by
        rw [owner_notifyAll]
        exact hex.mono fun u l hl => by rwa [holds_notifyAll] at hl
      exact exclusive_goto hex' fun l hl => by rw [holds_notifyAll]; exact hh l hl
    · have : s.world.Conserves := hc
      rwa [← world_notifyAll s i] at this
  | work world pc hw hh hk =>
    exact ⟨knows_goto (s := { s with world }) (fun u => hw.knows (hknows u)) hk,
      exclusive_goto hex hh, hw.conserves hc⟩

theorem Unchanged.refl (w : World Message) (x : Shared) : Unchanged w w x := by
  cases x with
  | outbox i => exact fun e he => ⟨e, he, rfl⟩
  | inbox i => exact fun e he => ⟨e, he, rfl⟩
  | map d => rfl

/-- **No two threads use one object at a time**, in every state that the threads reach under any
interleaving, whatever the listeners call; and the next step of a thread changes no object but those
that it uses. -/
theorem race_free {as : List ProcessAct} (h : exec step init as = some s) :
    (∀ (t u : Thread) (x : Shared), x ∈ t.accesses (s.pc t) → x ∈ u.accesses (s.pc u) → t = u) ∧
      ∀ a s', s.step a = some s' → ∀ x, x ∉ a.thread.accesses (s.pc a.thread) →
        Unchanged s.world s'.world x := by
  have hs : s.Guarded := exec_invariant (fun _ _ _ => guarded_step) h guarded_init
  refine ⟨fun t u x ht hu => ?_, fun a s' hstep x hx => ?_⟩
  · exact hs.exclusive.eq_of_holds (Thread.lock_mem_holds ht) (Thread.lock_mem_holds hu)
  · cases step_effect hs.knows hstep with
    | goto | lock | unlock => exact Unchanged.refl _ x
    | notify i pc =>
      show Unchanged s.world (s.notifyAll i).world x
      rw [world_notifyAll]
      exact Unchanged.refl _ x
    | work world pc hw => exact hw.frame x hx

theorem race_free_chain : ∃ s, exec step init chainRun = some s ∧
    Shared.map .toClient ∈ (Thread.receive 1).accesses (s.pc (.receive 1)) ∧
      ∀ (t u : Thread) (x : Shared), x ∈ t.accesses (s.pc t) → x ∈ u.accesses (s.pc u) → t = u :=
  ⟨_, rfl, List.mem_cons_of_mem _ List.mem_cons_self, (race_free (rfl : exec step init chainRun = some _)).1⟩

/-- **Nothing is lost or duplicated by the threads.** In every state that they reach, between any two
of their steps, the outboxes, shared queues, inboxes and dispatched messages together are the
messages pushed; each of these is in exactly one place and has been dispatched at most once. -/
theorem threads_conserve {as : List ProcessAct} (h : exec step init as = some s) :
    s.world.contents = s.world.pushed ∧ (∀ m ∈ s.world.pushed, s.world.contents.count m = 1) ∧
      ∀ m, s.world.dispatched.count m ≤ 1 := by
  have hw : s.world.Conserves :=
    (exec_invariant (I := Guarded) (fun _ _ _ => guarded_step) h guarded_init).conserves
  refine ⟨hw.contents, fun m hm => ?_, fun m => ?_⟩
  · refine Multiset.count_eq_one_of_mem hw.nodup ?_
    rw [hw.contents]
    exact hm
  · exact (Multiset.count_le_of_le m (World.dispatched_le_contents s.world)).trans
      (Multiset.nodup_iff_count_le_one.mp hw.nodup m)

/-- A message goes from a server to its client, whose listener answers it. -/
def answerRun : List ProcessAct :=
  chainRun.take 16 ++ [.call 0 (.sendMessage 0 (.new [98] [1])), .user 0, .user 0, .user 0, .user 0] ++
    List.replicate 6 (.send 0) ++ List.replicate 5 (.receive 1 none) ++
    .receive 1 (some (.sendMessage 1 (.new [98] [2]))) :: List.replicate 5 (.receive 1 none)

theorem threads_conserve_answer : ∃ s, exec step init answerRun = some s ∧
    s.world.pushed = [⟨0, 0, .new [98] [1]⟩, ⟨1, 1, .new [98] [2]⟩] ∧
    (∀ e ∈ s.world.endpoints[1]?, e.dispatched = [⟨0, 0, .new [98] [1]⟩] ∧
      e.outbox = [⟨1, 1, .new [98] [2]⟩]) ∧
    s.world.contents = s.world.pushed := by
  refine ⟨_, rfl, rfl, ?_, (threads_conserve (rfl : exec step init answerRun = some _)).1⟩
  rintro e ⟨⟩
  exact ⟨rfl, rfl⟩

end Process

end Petunia.Inprocess
