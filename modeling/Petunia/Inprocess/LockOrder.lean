import Petunia.Inprocess.Locks

set_option autoImplicit false

/-!
# No circular wait

Every thread locks in one order: the receive lock of an endpoint, then a send lock, then the lock of
a map. The listeners run under a receive lock alone, so it does not matter which endpoints they
address.

* `Lock.rank`: the order;
* `Process.Owned`, `owned_step`: a mutex is owned only by a thread that holds it;
* `rank_lt_of_wants`, `free_of_step`: what a thread wants ranks above what it holds, and it takes no
  step while another thread owns it;
* **`no_circular_wait`**: no reachable state has a cycle of waiting threads
  (`no_circular_wait_chain`: a run in which three threads wait in a row).
-/

namespace Petunia.Inprocess

open Lts LockOrder

/-- The order in which the mutexes are locked. -/
def Lock.rank : Lock → ℕ
  | .receive _ => 0
  | .send _ => 1
  | .channel _ => 2

namespace Process

/-- A mutex is owned only by a thread whose program counter says that it holds it. -/
def Owned (s : Process) : Prop := LockOrder.Owned s.owner fun t l => l ∈ t.holds (s.pc t)

/-! ## The moves of one thread -/

/-- Going on without leaving a mutex. -/
theorem Owned.goto {s : Process} (h : s.Owned) {t : Thread} {pc : t.Pc}
    (hpc : ∀ l ∈ t.holds (s.pc t), l ∈ t.holds pc) : (s.goto t pc).Owned := by
  refine h.mono fun u l hl => ?_
  by_cases hu : u = t
  · subst hu
    simpa only [Process.goto, Function.update_self] using hpc l hl
  · simpa only [Process.goto, Function.update_of_ne hu] using hl

/-- Locking a mutex. -/
theorem Owned.lock {s s' : Process} (h : s.Owned) {l : Lock} {t : Thread} {pc : t.Pc}
    (hs : s.lock l t pc = some s') (hl : l ∈ t.holds pc)
    (hpc : ∀ l ∈ t.holds (s.pc t), l ∈ t.holds pc) : s'.Owned := by
  unfold Process.lock at hs
  split_ifs at hs
  cases hs
  refine LockOrder.Owned.acquire (h.goto hpc) ?_
  simpa only [Process.goto, Function.update_self] using hl

/-- Unlocking a mutex. -/
theorem Owned.unlock {s : Process} (h : s.Owned) {l : Lock} {t : Thread} {pc : t.Pc}
    (hpc : ∀ l' ∈ t.holds (s.pc t), l' ≠ l → l' ∈ t.holds pc) : (s.unlock l t pc).Owned := by
  refine LockOrder.Owned.release h fun u l' hne hl' => ?_
  by_cases hu : u = t
  · subst hu
    simpa only [Process.unlock, Process.goto, Function.update_self] using hpc l' hl' hne
  · simpa only [Process.unlock, Process.goto, Function.update_of_ne hu] using hl'

/-- A notification moves a thread that holds nothing. -/
theorem holds_notifyAll (s : Process) (i : ℕ) (t : Thread) :
    t.holds ((s.notifyAll i).pc t) = t.holds (s.pc t) := by
  unfold notifyAll
  split_ifs with hb
  · by_cases ht : t = .send i
    · subst ht
      simp only [Process.goto, Function.update_self]
      show SendPc.holds i .acquire = SendPc.holds i (s.pc (.send i))
      rw [hb]
      rfl
    · simp only [Process.goto, Function.update_of_ne ht]
  · rfl

theorem Owned.notifyAll {s : Process} (h : s.Owned) (i : ℕ) : (s.notifyAll i).Owned := by
  have ho : (s.notifyAll i).owner = s.owner := by
    unfold Process.notifyAll; split_ifs <;> rfl
  intro l t hl
  rw [ho] at hl
  simpa only [holds_notifyAll] using h l t hl

/-- Inside `SendMessage`, called by a thread that holds the mutexes of `held` besides. -/
theorem Owned.callStep {s s' : Process} (h : s.Owned) {t : Thread} {c : Call}
    {next : Option CallPc → t.Pc} {pc : CallPc} (held : List Lock)
    (hs : s.callStep t c next pc = some s') (hpc : t.holds (s.pc t) = pc.holds c ++ held)
    (hcall : ∀ pc', t.holds (next (some pc')) = pc'.holds c ++ held)
    (hret : t.holds (next none) = held) : s'.Owned := by
  cases pc with
  | acquire =>
    refine h.lock hs ?_ ?_
    · rw [hcall]; simp [CallPc.holds]
    · rw [hpc, hcall]
      simp +contextual [CallPc.holds]
  | push =>
    obtain ⟨w, -, rfl⟩ := Option.map_eq_some_iff.mp hs
    refine Owned.goto (s := { s with world := w }) h ?_
    rw [hcall]
    simp [hpc, CallPc.holds]
  | notify =>
    cases hs
    refine (h.notifyAll c.target).goto ?_
    rw [holds_notifyAll, hpc, hcall]
    simp [CallPc.holds]
  | release =>
    cases hs
    refine h.unlock ?_
    rw [hpc, hret]
    simp +contextual [CallPc.holds]

/-! ## The steps -/

section

attribute [local simp] Thread.holds SendPc.holds ReceivePc.holds UserPc.holds EnsurePc.holds
  CallPc.holds

theorem owned_sendStep {s s' : Process} {i : ℕ} (h : s.Owned) (hs : s.sendStep i = some s') :
    s'.Owned := by
  obtain ⟨e, -, hs⟩ := Option.bind_eq_some_iff.mp hs
  split at hs
  · next hp => exact h.lock hs (by simp) (by rw [hp]; simp)
  · next hp =>
    cases hs
    refine h.goto ?_
    rw [hp]
    split_ifs <;> simp
  · next hp =>
    cases hs
    refine h.unlock ?_
    rw [hp]
    simp
  · next hp =>
    cases hs
    refine h.goto ?_
    rw [hp]
    simp
  · next hp => exact h.lock hs (by simp) (by rw [hp]; simp)
  · next d hp =>
    obtain ⟨r, -, rfl⟩ := Option.map_eq_some_iff.mp hs
    refine Owned.goto (s := { s with world := r.2 }) h ?_
    simp [hp]
  · next d hp =>
    cases hs
    refine h.unlock ?_
    rw [hp]
    simp +contextual
  · next hp =>
    cases hs
    refine h.unlock ?_
    rw [hp]
    simp

theorem owned_receiveStep {s s' : Process} {i : ℕ} {call : Option Call} (h : s.Owned)
    (hs : s.receiveStep i call = some s') : s'.Owned := by
  obtain ⟨e, -, hs⟩ := Option.bind_eq_some_iff.mp hs
  split at hs
  · next hp => exact h.lock hs (by simp) (by rw [hp]; simp)
  · next hp => exact h.lock hs (by simp) (by rw [hp]; simp)
  · next d hp =>
    obtain ⟨r, -, rfl⟩ := Option.map_eq_some_iff.mp hs
    refine Owned.goto (s := { s with world := r.2 }) h ?_
    simp [hp]
  · next d received hp =>
    cases hs
    refine h.unlock ?_
    rw [hp]
    split_ifs <;> simp +contextual
  · next hp =>
    split at hs
    · cases hs
      refine h.goto ?_
      rw [hp]
      simp
    · cases hs
      refine Owned.goto (s := { s with world := _ }) h ?_
      simp [hp]
  · next hp =>
    split at hs
    · cases hs
      refine h.goto ?_
      rw [hp]
      simp
    · split_ifs at hs
      cases hs
      refine h.goto ?_
      rw [hp]
      simp
  · next c pc hp =>
    refine h.callStep [.receive i] hs ?_ (fun _ => rfl) rfl
    rw [hp]
    rfl
  · next hp =>
    cases hs
    refine h.unlock ?_
    rw [hp]
    simp

theorem owned_userStep {s s' : Process} {n : ℕ} (h : s.Owned) (hs : s.userStep n = some s') :
    s'.Owned := by
  unfold userStep at hs
  split at hs
  · cases hs
  · next c pc hp =>
    refine h.callStep [] hs ?_ (fun _ => ?_) rfl
    · rw [hp]; simp
    · simp
  · next hp => exact h.lock hs (by simp) (by rw [hp]; simp)
  · next channel role d hp =>
    cases hs
    refine Owned.goto (s := s.ensure channel d) h ?_
    simp [ensure, hp]
  · next channel role d hp =>
    cases hs
    refine h.unlock ?_
    rw [hp]
    simp +contextual
  · next channel role hp =>
    cases hs
    refine Owned.goto (s := { s with world := s.world.construct channel role }) h ?_
    simp [hp]

theorem owned_step {s s' : Process} {a : ProcessAct} (h : s.Owned) (hs : s.step a = some s') :
    s'.Owned := by
  cases a with
  | send i => exact owned_sendStep h hs
  | receive i call => exact owned_receiveStep h hs
  | call n c =>
    simp only [step] at hs
    split at hs
    · next hp =>
      split_ifs at hs
      cases hs
      refine h.goto ?_
      rw [hp]
      simp
    · cases hs
  | construct n channel role =>
    simp only [step] at hs
    split at hs
    · next hp =>
      split_ifs at hs
      cases hs
      refine h.goto ?_
      rw [hp]
      simp
    · cases hs
  | user n => exact owned_userStep h hs

theorem owned_init : init.Owned := fun _ _ h => by cases h

end

end Process

/-! ## The order -/

theorem SendPc.rank_lt {i : ℕ} {e : Endpoint (Entry Message)} {pc : SendPc} {l l' : Lock}
    (hw : pc.wants i e = some l) (hl : l' ∈ pc.holds i) : l'.rank < l.rank := by
  cases pc with
  | acquire => cases hl
  | acquireChannel =>
    cases hw
    obtain rfl := List.mem_singleton.mp hl
    exact Nat.one_lt_two
  | _ => cases hw

theorem ReceivePc.rank_lt {i : ℕ} {e : Endpoint (Entry Message)} {pc : ReceivePc} {l l' : Lock}
    (hw : pc.wants i e = some l) (hl : l' ∈ pc.holds i) : l'.rank < l.rank := by
  cases pc with
  | acquire => cases hl
  | acquireChannel =>
    cases hw
    obtain rfl := List.mem_singleton.mp hl
    exact Nat.zero_lt_two
  | calling c pc =>
    -- a listener calls `SendMessage`, and the thread holds nothing but its receive lock
    cases pc with
    | acquire =>
      cases hw
      obtain rfl := List.mem_singleton.mp hl
      exact Nat.zero_lt_one
    | _ => cases hw
  | _ => cases hw

/-- A user thread that wants a mutex holds none. -/
theorem UserPc.holds_of_wants {pc : UserPc} {l : Lock} (hw : pc.wants = some l) :
    pc.holds = [] := by
  cases pc with
  | idle => cases hw
  | calling c pc => cases pc <;> first | rfl | cases hw
  | ensuring channel role d pc => cases pc <;> first | rfl | cases hw
  | startMQThread => cases hw

namespace Process

/-- **What a thread wants ranks above all it holds.** -/
theorem rank_lt_of_wants {s : Process} {t : Thread} {l l' : Lock} (hw : s.wants t = some l)
    (hl : l' ∈ t.holds (s.pc t)) : l'.rank < l.rank := by
  cases t with
  | send i =>
    obtain ⟨e, -, hw⟩ := Option.bind_eq_some_iff.mp hw
    exact SendPc.rank_lt hw hl
  | receive i =>
    obtain ⟨e, -, hw⟩ := Option.bind_eq_some_iff.mp hw
    exact ReceivePc.rank_lt hw hl
  | user n =>
    have hn : (Thread.user n).holds (s.pc (.user n)) = [] := UserPc.holds_of_wants hw
    rw [hn] at hl
    cases hl

/-! ## Waiting -/

theorem free_of_lock {s s' : Process} {l : Lock} {t : Thread} {pc : t.Pc}
    (h : s.lock l t pc = some s') : s.owner l = none := by
  unfold lock at h
  split_ifs at h with hn
  exact hn

theorem free_of_callStep {s s' : Process} {t : Thread} {c : Call} {next : Option CallPc → t.Pc}
    {pc : CallPc} {l : Lock} (h : s.callStep t c next pc = some s') (hw : pc.wants c = some l) :
    s.owner l = none := by
  cases pc with
  | acquire =>
    cases hw
    exact free_of_lock h
  | _ => cases hw

/-- **A thread waits for the mutex that it wants**: it takes no step while another owns it. -/
theorem free_of_step {s s' : Process} {a : ProcessAct} {l : Lock} (h : s.step a = some s')
    (hw : s.wants a.thread = some l) : s.owner l = none := by
  cases a with
  | send i =>
    obtain ⟨e, he, h⟩ := Option.bind_eq_some_iff.mp h
    simp only [ProcessAct.thread, wants, he, Option.bind_some] at hw
    split at h <;> rename_i hp <;> rw [hp] at hw <;> cases hw <;> exact free_of_lock h
  | receive i call =>
    obtain ⟨e, he, h⟩ := Option.bind_eq_some_iff.mp h
    simp only [ProcessAct.thread, wants, he, Option.bind_some] at hw
    split at h
    · next hp => rw [hp] at hw; cases hw; exact free_of_lock h
    · next hp => rw [hp] at hw; cases hw; exact free_of_lock h
    · next hp => rw [hp] at hw; cases hw
    · next hp => rw [hp] at hw; cases hw
    · next hp => rw [hp] at hw; cases hw
    · next hp => rw [hp] at hw; cases hw
    · next c pc hp => rw [hp] at hw; exact free_of_callStep h hw
    · next hp => rw [hp] at hw; cases hw
  | call n c =>
    simp only [step] at h
    split at h
    · next hp => simp only [ProcessAct.thread, wants, hp] at hw; cases hw
    · cases h
  | construct n channel role =>
    simp only [step] at h
    split at h
    · next hp => simp only [ProcessAct.thread, wants, hp] at hw; cases hw
    · cases h
  | user n =>
    simp only [step, userStep] at h
    simp only [ProcessAct.thread, wants] at hw
    split at h
    · cases h
    · next c pc hp => rw [hp] at hw; exact free_of_callStep h hw
    · next hp => rw [hp] at hw; cases hw; exact free_of_lock h
    · next hp => rw [hp] at hw; cases hw
    · next hp => rw [hp] at hw; cases hw
    · next hp => rw [hp] at hw; cases hw

end Process

open Process

/-- **No circular wait.** For any number of endpoints and threads, whatever the listeners call: no
reachable state has a cycle of threads in which each waits for a mutex that the next one owns. -/
theorem no_circular_wait {as : List ProcessAct} {s : Process} (h : exec step init as = some s)
    (t : Thread) : ¬ Relation.TransGen (WaitsFor s.wants s.owner) t t := by
  have ho : s.Owned := exec_invariant (fun _ _ _ => owned_step) h owned_init
  have hr : Ranked Lock.rank s.wants s.owner := by
    intro u l l' hw hl'
    exact rank_lt_of_wants hw (ho l' u hl')
  exact not_transGen_waitsFor hr t

/-- The steps that construct a pair of endpoints and leave threads of theirs between two mutexes. -/
def chainRun : List ProcessAct :=
  [.construct 0 [97] .server, .user 0, .user 0, .user 0, .user 0, .user 0, .user 0, .user 0,
    .construct 0 [97] .client, .user 0, .user 0, .user 0, .user 0, .user 0, .user 0, .user 0,
    .call 0 (.sendMessage 0 (.new [98] [1])), .user 0, .user 0, .user 0, .user 0,
    .send 0, .send 0, .receive 1 none, .receive 1 none,
    .call 0 (.updateMessage 0 (.new [98] [2]))]

/-- A user waits for a send thread, which waits for a receive thread. -/
theorem no_circular_wait_chain : ∃ s, exec step init chainRun = some s ∧
    Relation.TransGen (WaitsFor s.wants s.owner) (.user 0) (.receive 1) ∧
    ∀ t, ¬ Relation.TransGen (WaitsFor s.wants s.owner) t t := by
  refine ⟨_, rfl, .tail (.single (b := .send 0) ?_) ?_,
    fun t => no_circular_wait (rfl : exec step init chainRun = some _) t⟩
  · exact ⟨.send 0, rfl, rfl⟩
  · exact ⟨.channel .toClient, rfl, rfl⟩

end Petunia.Inprocess
