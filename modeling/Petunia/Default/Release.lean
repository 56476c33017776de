import Petunia.Default.Owners
import Petunia.Default.Reception
import Petunia.Default.SendFaults

set_option autoImplicit false

/-!
# The life of a SQLite medium

`IPCInternalMedium` from its constructor to its destructor, with the calls of the two threads in any
order and an exception at any of their SQLite calls. A statement that `nextRow` has finalized is
still that of `m_select_messages_stmt`.

* `Life`, `LifeAct`, `Life.step`: a run; its end is `gone`, or undefined behaviour;
* `Life.Sound`, **`sound_step`**: every statement has one owner while no `nextRow` fails;
* `Life.Lost`, `lost_of_fails`, **`lost_step`**: what such a failure leaves behind;
* **`released_iff`**: a run releases everything once if and only if no `nextRow` fails in it
  (`unreadable`: a run that ends in undefined behaviour).
-/

namespace Petunia

open Call CTypes Lts Sql

/-! ## Runs -/

/-- A medium. -/
inductive Life
  | unborn
  | alive (calls : Calls) (handles : Handles)
  | gone (handles : Handles)
  | undefined
  /-- An exception has left the destructor. -/
  | terminated

/-- The steps of a medium, of its threads and of its peer. -/
inductive LifeAct
  | construct (db : Tables) (databaseAlreadyCreated : Bool) (faults : List Bool)
  | sendMessages (outbox : List (Tagged Message))
  | receiveMessages
  | call (th : Thread)
  | throws (th : Thread) (faults : List Bool)
  | peerCommits (t : MessageTable)
  | destruct

namespace Calls

/-- The thread is not between two SQLite calls of one function. -/
def Idle (s : Calls) : Thread → Prop
  | .send => s.send = .begin ∨ s.send.Finished
  | .receive => s.receive = .scan 0 ∨ s.receive.Finished

/-- The next SQLite call of a thread, as far as pointers are concerned. -/
def handleCall (s : Calls) : Thread → Call Handles Unit
  | .send => Handles.sendCall s.send
  | .receive => Handles.receiveCall (!s.found.isEmpty) s.receive

/-- A thread calls its function again. -/
def again (s : Calls) : Thread → Calls
  | .send => s.resend
  | .receive => { s with receive := .scan 0 }

/-- The last SQLite call of the thread has failed. -/
def failed (s : Calls) : Thread → Bool
  | .send => match s.send with
    | .failed _ => true
    | _ => false
  | .receive => match s.receive with
    | .failed _ => true
    | _ => false

instance (s : Calls) : ∀ th, Decidable (s.Idle th)
  | .send =>
    match h : s.send with
    | .begin => isTrue (.inl h)
    | .returned _ | .failed _ => isTrue (.inr (by rw [h]; trivial))
    | .update | .changes | .insert | .commit => isFalse (by simp [Idle, h, SendPc.Finished])
  | .receive =>
    match h : s.receive with
    | .scan 0 => isTrue (.inl h)
    | .returned _ | .failed _ => isTrue (.inr (by rw [h]; trivial))
    | .scan (_ + 1) | .begin _ | .delete _ | .commit =>
      isFalse (by simp [Idle, h, ReceivePc.Finished])

end Calls

/-- `received_messages` is destroyed with the stack frame of `ReceiveMessages`. -/
def Handles.leave (s : Handles) : Thread → Handles
  | .send => s
  | .receive => { s with query := none }

namespace Life

/-- One step. -/
def step (lim : Limits) : Life → LifeAct → Option Life
  | .unborn, .construct db created faults =>
    match Handles.construct created (.init faults) with
    | .undefined => some .undefined
    | .thrown handles => some (.gone handles)
    | .returned () handles => some (.alive (Calls.start db 0 [] []) handles)
  | .alive calls handles, .sendMessages outbox =>
    if calls.Idle .send then
      some (.alive ({ calls with outbox := calls.outbox ++ outbox }.again .send) handles)
    else none
  | .alive calls handles, .receiveMessages =>
    if calls.Idle .receive then some (.alive (calls.again .receive) handles) else none
  | .alive calls handles, .peerCommits t =>
    some (.alive { calls with conn := { calls.conn with
      db := { calls.conn.db with incoming := t } } } handles)
  | .alive calls handles, .call th =>
    (calls.step lim th).bind fun calls' =>
      if calls'.failed th then none
      else match calls.handleCall th { handles with faults := [] } with
        | .undefined => some .undefined
        | .thrown _ => none
        | .returned () handles =>
          some (.alive calls' (if calls'.Idle th then handles.leave th else handles))
  | .alive calls handles, .throws th faults =>
    match calls.handleCall th { handles with faults } with
    | .undefined => some .undefined
    | .thrown handles => some (.alive (calls.again th) (handles.leave th))
    | .returned () _ => none
  | .alive calls handles, .destruct =>
    if calls.Idle .send ∧ calls.Idle .receive then
      match Handles.destruct handles with
      | .undefined => some .undefined
      | .thrown _ => some .terminated
      | .returned () handles => some (.gone handles)
    else none
  | _, _ => none

end Life

/-! ## Whole runs -/

namespace Calls

variable {lim : Limits} {s t : Calls}

theorem receive_of_sendStep (h : s.sendStep lim = some t) : t.receive = s.receive := by
  cases sendStep_iff.mp h <;> rfl

theorem scan_of_receiveStep {n : ℕ} (h : s.receiveStep = some t) (hn : t.receive = .scan n) :
    ∃ k, s.receive = .scan k := by
  cases receiveStep_iff.mp h with
  | row hp hr => exact ⟨_, hp⟩
  | eof hp hr => exact ⟨_, hp⟩
  | begin | nested | delete | commit | notBegun => cases hn

end Calls

/-- What holds of a medium that lives. -/
structure Life.Alive (calls : Calls) (handles : Handles) : Prop where
  owned : handles.Owned
  member (m : Member) : handles.slot (.member m) ≠ none
  reads (h : Handles.ReadsNext calls.receive) :
    handles.query = handles.slot (.member .selectMessages)
  idle (h : calls.Idle .receive) : handles.query = none

namespace Life

/-- Every statement has one owner, and in the end everything has been given back. -/
def Sound : Life → Prop
  | .unborn => True
  | .alive calls handles => Alive calls handles
  | .gone handles => handles.Released
  | .undefined | .terminated => False

/-- `m_select_messages_stmt` refers to a statement that has been finalized, or has been used. -/
def Lost : Life → Prop
  | .alive calls handles => calls.receive = .scan 0 ∧ handles.Dangling
  | .undefined => True
  | .unborn | .gone _ | .terminated => False

/-- A call of `nextRow` does not fail. -/
def NextRowReturns : Life → LifeAct → Prop
  | .alive calls _, .throws .receive faults =>
    Handles.ReadsNext calls.receive → faults.headD false = false
  | _, _ => True

variable {lim : Limits} {calls calls' : Calls} {handles : Handles} {s t : Life} {a : LifeAct}

/-- What `received_messages` refers to after a call. -/
def QueryLeft (calls : Calls) (s : Handles) : Thread → Handles → Prop
  | .send, t => t.query = s.query
  | .receive, t => s.QueryAfter calls.receive t

/-- **A SQLite call** of a medium. -/
theorem Alive.wp_handleCall (h : Alive calls handles) (th : Thread) (faults : List Bool)
    (hf : th = .receive → Handles.ReadsNext calls.receive → faults.headD false = false) :
    wp False (calls.handleCall th)
      (fun _ t => handles.Evaluates t ∧ QueryLeft calls handles th t)
      (fun t => handles.Evaluates t ∧ (th = .send → t.query = handles.query))
      { handles with faults } := by
  have hv := (h.owned.withFaults faults).valid
  have key : ∀ t, Handles.Evaluates { handles with faults } t → handles.Evaluates t := fun t ht =>
    ⟨ht.slot, ht.live, ht.prepared, ht.connection, ht.db, ht.settled⟩
  cases th with
  | send =>
    exact wp_mono (Handles.uses_sendCall calls.send _ hv) id (fun _ t ht => ⟨key t ht.1, ht.2⟩)
      fun t ht => ⟨key t ht.1, fun _ => ht.2⟩
  | receive =>
    exact wp_mono (Handles.wp_receiveCall hv (hf rfl) h.reads) id
      (fun _ t ht => ⟨key t ht.1, ht.2⟩) fun t ht => ⟨key t ht, nofun⟩

/-- A call that has returned. -/
theorem Alive.returned (h : Alive calls handles) {th : Thread} {handles' : Handles}
    (hc : calls.step lim th = some calls') (he : handles.Evaluates handles')
    (hq : QueryLeft calls handles th handles') :
    Alive calls' (if calls'.Idle th then handles'.leave th else handles') := by
  have hselect := he.slot ▸ h.member .selectMessages
  have hquery : ∀ i, handles'.query = some i → handles'.slot (.member .selectMessages) = some i := by
    intro i hi
    rw [he.slot]
    cases th with
    | send => exact h.owned.query i (hq.symm.trans hi)
    | receive =>
      rcases hq with hq | ⟨hq, -⟩
      · rw [← hq, hi]
      · exact h.owned.query i (hq ▸ hi)
  have howned := h.owned.of_evaluates he hquery
  cases th with
  | send =>
    have hrec := Calls.receive_of_sendStep hc
    rw [show handles'.leave .send = handles' from rfl, ite_self]
    have hq : handles'.query = handles.query := hq
    refine ⟨howned, fun m => he.slot ▸ h.member m, fun hr => ?_, fun hi => ?_⟩
    · rw [hq, he.slot]
      exact h.reads (hrec ▸ hr)
    · rw [hq]
      apply h.idle
      unfold Calls.Idle at hi ⊢
      rwa [← hrec]
  | receive =>
    split_ifs with hi
    · refine ⟨⟨howned.owners, howned.prepared, howned.settled, howned.connection, howned.temporary,
        howned.scalar, nofun⟩, fun m => he.slot ▸ h.member m, fun hr => ?_, fun _ => rfl⟩
      -- a call that has ended does not read on
      obtain ⟨n, hn⟩ := hr
      rcases hi with hi | hi
      · cases hn.symm.trans hi
      · rw [hn] at hi
        exact hi.elim
    · refine ⟨howned, fun m => he.slot ▸ h.member m, fun ⟨n, hn⟩ => ?_, fun hi' => absurd hi' hi⟩
      obtain ⟨k, hk⟩ := Calls.scan_of_receiveStep hc hn
      rcases hq with hq | ⟨-, hq⟩
      · rw [hq, he.slot]
      · exact absurd hk (hq k)

/-- A call that has thrown. -/
theorem Alive.thrown (h : Alive calls handles) (th : Thread) {handles' : Handles}
    (he : handles.Evaluates handles') (hq : th = .send → handles'.query = handles.query) :
    Alive (calls.again th) (handles'.leave th) := by
  cases th with
  | send =>
    have hq := hq rfl
    have howned := h.owned.of_evaluates he fun i hi => he.slot ▸ h.owned.query i (hq ▸ hi)
    refine ⟨howned, fun m => he.slot ▸ h.member m, fun hr => ?_, fun hi => ?_⟩
    · exact hq.trans ((h.reads hr).trans (by rw [Handles.leave, he.slot]))
    · exact hq.trans (h.idle hi)
  | receive =>
    have howned : (handles'.leave .receive).Owned :=
      (h.owned.of_evaluates (t := handles'.leave .receive)
        ⟨he.slot, he.live, he.prepared, he.connection, he.db, he.settled⟩ nofun)
    exact ⟨howned, fun m => he.slot ▸ h.member m, fun ⟨n, hn⟩ => (by cases hn), fun _ => rfl⟩

/-- **One step** in which no `nextRow` fails. -/
theorem sound_step (hs : s.Sound) (ha : NextRowReturns s a) (h : step lim s a = some t) :
    t.Sound := by
  cases s with
  | gone | undefined | terminated => cases a <;> cases h
  | unborn =>
    cases a with
    | construct db created faults =>
      have hw := Handles.wp_construct (U := False) created faults
      unfold wp at hw
      simp only [step] at h
      cases hp : Handles.construct created (.init faults) with
      | undefined => rw [hp] at hw; exact hw.elim
      | thrown u =>
        rw [hp] at hw h
        cases h
        exact hw
      | returned _ u =>
        rw [hp] at hw h
        cases h
        exact ⟨hw.1, hw.2.2, fun ⟨n, hn⟩ => (by cases hn), fun _ => hw.2.1⟩
    | _ => cases h
  | alive calls handles =>
    have hs : Alive calls handles := hs
    cases a with
    | construct => cases h
    | sendMessages outbox =>
      simp only [step] at h
      split_ifs at h
      cases h
      exact ⟨hs.owned, hs.member, hs.reads, hs.idle⟩
    | receiveMessages =>
      simp only [step] at h
      split_ifs at h with hi
      cases h
      exact ⟨hs.owned, hs.member, fun ⟨n, hn⟩ => (by cases hn), fun _ => hs.idle hi⟩
    | peerCommits tbl =>
      cases h
      exact ⟨hs.owned, hs.member, hs.reads, hs.idle⟩
    | call th =>
      obtain ⟨calls', hc, h⟩ := Option.bind_eq_some_iff.mp h
      have hw := hs.wp_handleCall th [] fun _ _ => rfl
      unfold wp at hw
      by_cases hfail : calls'.failed th = true
      · rw [if_pos hfail] at h
        cases h
      rw [if_neg hfail] at h
      cases hp : calls.handleCall th { handles with faults := [] } with
      | undefined => rw [hp] at hw; exact hw.elim
      | thrown u => rw [hp] at h; cases h
      | returned _ u =>
        rw [hp] at hw h
        cases h
        exact hs.returned hc hw.1 hw.2
    | throws th faults =>
      have hw := hs.wp_handleCall th faults fun hth hr => by
        subst hth
        exact ha hr
      unfold wp at hw
      simp only [step] at h
      cases hp : calls.handleCall th { handles with faults } with
      | undefined => rw [hp] at hw; exact hw.elim
      | returned _ u => rw [hp] at h; cases h
      | thrown u =>
        rw [hp] at hw h
        cases h
        exact hs.thrown th hw.1 hw.2
    | destruct =>
      simp only [step] at h
      split_ifs at h with hi
      have hw := Handles.wp_destruct (U := False) hs.owned (hs.idle hi.2)
      unfold wp at hw
      cases hp : Handles.destruct handles with
      | undefined => rw [hp] at hw; exact hw.elim
      | thrown u => rw [hp] at hw; exact hw.elim
      | returned _ u =>
        rw [hp] at hw h
        cases h
        exact hw

/-- **The failure of a `nextRow`** loses the statement. -/
theorem lost_of_fails (hs : s.Sound) (ha : ¬ NextRowReturns s a) (h : step lim s a = some t) :
    t.Lost := by
  cases s with
  | unborn | gone | undefined | terminated => exact absurd trivial ha
  | alive calls handles =>
    cases a with
    | construct | sendMessages | receiveMessages | call | peerCommits | destruct =>
      exact absurd trivial ha
    | throws th faults =>
      cases th with
      | send => exact absurd trivial ha
      | receive =>
        have hs : Alive calls handles := hs
        obtain ⟨⟨n, hn⟩, hf⟩ := Classical.not_imp.mp ha
        obtain ⟨i, hi⟩ := Option.ne_none_iff_exists'.mp (hs.member .selectMessages)
        have hq := (hs.reads ⟨n, hn⟩).trans hi
        have hw := Handles.wp_nextRow_fails (U := False) (s := { handles with faults })
          (!calls.found.isEmpty) hs.owned.settled hq (hs.owned.valid.query i hq)
          ((Bool.not_eq_false _).mp hf)
        have hw' : wp False (calls.handleCall .receive) (fun _ _ => False)
            (fun u => u.slot = handles.slot ∧ u.vms i = none ∧ u.Settled)
            { handles with faults } := by
          rw [Calls.handleCall, hn, Handles.receiveCall, wp_bind]
          exact wp_mono hw id (fun _ _ h => h.elim) fun _ h => h
        unfold wp at hw'
        simp only [step] at h
        cases hp : calls.handleCall .receive { handles with faults } with
        | undefined => rw [hp] at hw'; exact hw'.elim
        | returned _ u => rw [hp] at hw'; exact hw'.elim
        | thrown u =>
          rw [hp] at hw' h
          cases h
          obtain ⟨hslot, hv, hset⟩ := hw'
          exact ⟨rfl, hset, i, hslot ▸ hi, hv⟩

/-- **No step comes back** from a lost statement. -/
theorem lost_step (hs : s.Lost) (h : step lim s a = some t) : t.Lost := by
  cases s with
  | unborn | gone | terminated => exact hs.elim
  | undefined => cases a <;> cases h
  | alive calls handles =>
    obtain ⟨hrec, hd⟩ := hs
    have hsend (faults : List Bool) : wp True (calls.handleCall .send) (fun _ => Handles.Dangling)
        Handles.Dangling { handles with faults } := by
      have hd' := hd.with handles.query faults
      exact wp_mono (Handles.uses_sendCall calls.send _ hd'.valid) id
        (fun _ _ hu => hd'.of_evaluates hu.1) fun _ hu => hd'.of_evaluates hu.1
    have hreceive (faults : List Bool) : calls.handleCall .receive { handles with faults } =
        .undefined := by
      apply eq_undefined_of_wp
      rw [Calls.handleCall, hrec, Handles.receiveCall, wp_bind]
      exact wp_mono (Handles.wp_reset_dangling (hd.with handles.query faults)) id
        (fun _ _ h => h.elim) fun _ h => h
    cases a with
    | construct => cases h
    | sendMessages outbox =>
      simp only [step] at h
      split_ifs at h
      cases h
      exact ⟨hrec, hd⟩
    | receiveMessages =>
      simp only [step] at h
      split_ifs at h
      cases h
      exact ⟨rfl, hd⟩
    | peerCommits tbl =>
      cases h
      exact ⟨hrec, hd⟩
    | call th =>
      obtain ⟨calls', hc, h⟩ := Option.bind_eq_some_iff.mp h
      by_cases hfail : calls'.failed th = true
      · rw [if_pos hfail] at h
        cases h
      rw [if_neg hfail] at h
      cases th with
      | receive =>
        rw [hreceive] at h
        cases h
        exact trivial
      | send =>
        have hw := hsend []
        unfold wp at hw
        cases hp : calls.handleCall .send { handles with faults := [] } with
        | undefined => rw [hp] at h; cases h; exact trivial
        | thrown u => rw [hp] at h; cases h
        | returned _ u =>
          rw [hp] at hw h
          cases h
          rw [show u.leave .send = u from rfl, ite_self]
          exact ⟨(Calls.receive_of_sendStep hc).trans hrec, hw⟩
    | throws th faults =>
      simp only [step] at h
      cases th with
      | receive =>
        rw [hreceive] at h
        cases h
        exact trivial
      | send =>
        have hw := hsend faults
        unfold wp at hw
        cases hp : calls.handleCall .send { handles with faults } with
        | undefined => rw [hp] at h; cases h; exact trivial
        | returned _ u => rw [hp] at h; cases h
        | thrown u =>
          rw [hp] at hw h
          cases h
          exact ⟨hrec, hw⟩
    | destruct =>
      simp only [step] at h
      split_ifs at h
      rw [eq_undefined_of_wp (Handles.wp_destruct_dangling hd)] at h
      cases h
      exact trivial

/-- The life of the medium has ended. -/
def Over : Life → Prop
  | .unborn | .alive _ _ => False
  | .gone _ | .undefined | .terminated => True

instance : DecidablePred Over
  | .unborn | .alive _ _ => isFalse id
  | .gone _ | .undefined | .terminated => isTrue trivial

/-- **A medium releases everything, once, if and only if no `nextRow` fails.** In a run that ends,
with the calls of the two threads in any order and an exception at any SQLite call, also in the
constructor, no statement is used or finalized after it has been finalized, the destructor does not
throw, and the connection is closed with no statement left. -/
theorem released_iff {as : List LifeAct} (h : exec (step lim) .unborn as = some s) (ho : s.Over) :
    (∃ handles, s = .gone handles ∧ handles.Released) ↔
      Along (step lim) NextRowReturns .unborn as := by
  constructor
  · rintro ⟨handles, rfl, -⟩
    by_contra hn
    obtain ⟨bs, u, a, v, cs, hbs, hal, ha, hv, hcs⟩ := exists_first_of_not_along h hn
    have hu : u.Sound := exec_invariant_along (fun _ _ _ => sound_step) hbs hal trivial
    exact exec_invariant (I := Lost) (fun _ _ _ => lost_step) hcs (lost_of_fails hu ha hv)
  · intro hal
    have hs : s.Sound := exec_invariant_along (fun _ _ _ => sound_step) h hal trivial
    cases s with
    | unborn | alive => exact ho.elim
    | gone handles => exact ⟨handles, rfl, hs⟩
    | undefined | terminated => exact hs.elim

/-- Two rows, of which the second cannot be read; the destructor follows. -/
def unreadable : List LifeAct :=
  [.construct ⟨.empty, .empty⟩ false [],
    .peerCommits (Table.empty.insert ⟨0, cStr [116], 1, [7, 7], by decide⟩),
    .call .receive, .throws .receive [true], .destruct]

theorem released_iff_unreadable : ∃ s, exec (step .default) .unborn unreadable = some s ∧ s.Over ∧
    ((∃ handles, s = .gone handles ∧ handles.Released) ↔
      Along (step .default) NextRowReturns .unborn unreadable) := by
  have h : (exec (step .default) .unborn unreadable).any (fun s => decide s.Over) = true := by
    decide +kernel
  obtain ⟨s, hs, ho⟩ := (Option.any_eq_true _ _).mp h
  exact ⟨s, hs, of_decide_eq_true ho, released_iff hs (of_decide_eq_true ho)⟩

end Life

end Petunia
