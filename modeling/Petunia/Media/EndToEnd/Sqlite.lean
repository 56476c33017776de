import Petunia.Default.Fifo
import Petunia.Default.SharedConnection
import Petunia.Media.Channel

set_option autoImplicit false

/-!
# From the callers of one object to the listeners of the other, over SQLite

Each object has one connection to the database, which its send thread and its receive thread share:
a `BEGIN` of one fails while a transaction of the other is open. The other statements succeed.

* `Sqlite`, `Sqlite.step`: one `Link` for each direction, and whose transaction is open on either
  connection;
* `sqlite`: the medium that the objects use;
* `BeginsInAutocommit`: every `BEGIN` finds no transaction open on its connection;
* **`sqlite_end_to_end`**: then every message pushed is in one place between the outbox and the
  listeners, in order, and no `BEGIN` has failed.
-/

namespace Petunia

open CTypes Lts Threads

/-! ## The medium -/

/-- The two directions, the thread of each object that has a transaction open on its connection, and
whether a `BEGIN` of the object has failed. -/
structure Sqlite where
  link : Bool → Link
  txn : Bool → Option Thread
  failed : Bool → Bool

/-- The steps of the object `x`. No caller changes the flag of a message that it has pushed. -/
inductive SqliteAct
  | push (x : Bool) (message : Message)
  /-- `SendMessages` with an empty outbox. -/
  | sendNothing (x : Bool)
  /-- `BeginTransaction`, of `SendMessages` or of `DeleteOldMessages`. -/
  | begin (x : Bool) (th : Thread)
  /-- The messages of the outbox are written, and `Commit`. -/
  | sendMessages (x : Bool)
  /-- `ReceiveMessages` up to its `DELETE`. -/
  | scan (x : Bool)
  /-- The rows read are deleted, and `Commit`. -/
  | deleteOldMessages (x : Bool)
  /-- The connection is closed, and the file of a `Server` removed; the peer still has it open. -/
  | destroy (x : Bool)
  deriving DecidableEq

/-- The direction that a step is about, and what it does there. -/
def SqliteAct.linkAct : SqliteAct → Option (Bool × LinkAct)
  | .push x m => some (x, .push m)
  | .sendMessages x => some (x, .sendMessages)
  | .scan x => some (!x, .scan)
  | .deleteOldMessages x => some (!x, .deleteOldMessages)
  | .sendNothing _ | .begin _ _ | .destroy _ => none

namespace Sqlite

/-- A freshly created channel, with both objects connected to it. -/
def init : Sqlite := ⟨fun _ => .init, fun _ => none, fun _ => false⟩

/-- A step in one direction. -/
def linkStep (lim : Limits) (s : Sqlite) (x : Bool) (a : LinkAct) : Option Sqlite :=
  ((s.link x).step lim a).map fun l => { s with link := Function.update s.link x l }

/-- The transaction of the object `x` is over. -/
def commit (s : Sqlite) (x : Bool) : Sqlite := { s with txn := Function.update s.txn x none }

/-- The thread has come to its `BEGIN`. -/
def Begins (s : Sqlite) (x : Bool) : Thread → Prop
  | .send => (s.link x).outbox ≠ [] ∧ s.txn x ≠ some .send
  | .receive => (s.link !x).reference ≠ none ∧ s.txn x ≠ some .receive

instance (s : Sqlite) (x : Bool) : ∀ th, Decidable (s.Begins x th)
  | .send => inferInstanceAs (Decidable ((s.link x).outbox ≠ [] ∧ s.txn x ≠ some .send))
  | .receive => inferInstanceAs (Decidable ((s.link !x).reference ≠ none ∧ s.txn x ≠ some .receive))

/-- One step. Nothing catches the exception of a failed `BEGIN`, so that its object makes no further
call. -/
def step (lim : Limits) (s : Sqlite) : SqliteAct → Option Sqlite
  | .push x m => s.linkStep lim x (.push m)
  | .sendNothing x => if (s.link x).outbox = [] then some s else none
  | .begin x th =>
    if s.failed x = false ∧ s.Begins x th then
      match s.txn x with
      | none => some { s with txn := Function.update s.txn x (some th) }
      | some _ => some { s with failed := Function.update s.failed x true }
    else none
  | .sendMessages x =>
    if s.failed x = false ∧ s.txn x = some .send then (s.commit x).linkStep lim x .sendMessages
    else none
  | .scan x => if s.failed x = false then s.linkStep lim (!x) .scan else none
  | .deleteOldMessages x =>
    if s.failed x = false ∧ s.txn x = some .receive then
      (s.commit x).linkStep lim (!x) .deleteOldMessages
    else none
  | .destroy _ => some s

end Sqlite

section

variable {lim : Limits} {s t : Sqlite} {x : Bool} {a : SqliteAct}

/-- A step changes one direction only. -/
theorem link_of_linkStep {b : LinkAct} (h : s.linkStep lim x b = some t) :
    (s.link x).step lim b = some (t.link x) ∧ (∀ y, y ≠ x → t.link y = s.link y) ∧
      t.failed = s.failed := by
  obtain ⟨l, hl, rfl⟩ := Option.map_eq_some_iff.mp h
  refine ⟨?_, fun y hy => Function.update_of_ne hy .., rfl⟩
  show (s.link x).step lim b = some (Function.update s.link x l x)
  rw [Function.update_self, hl]

/-- **What a step does** to the two directions, and when it makes an object fail. -/
theorem Sqlite.step_link (h : s.step lim a = some t) :
    (match a.linkAct with
      | none => t.link = s.link
      | some (x, b) => (s.link x).step lim b = some (t.link x) ∧
          ∀ y, y ≠ x → t.link y = s.link y) ∧
      ((∀ x th, a = .begin x th → s.txn x = none) → t.failed = s.failed) := by
  cases a with
  | push x m =>
    obtain ⟨hx, hy, hf⟩ := link_of_linkStep h
    exact ⟨⟨hx, hy⟩, fun _ => hf⟩
  | sendNothing x =>
    simp only [step] at h
    split_ifs at h
    obtain rfl := Option.some.inj h
    exact ⟨rfl, fun _ => rfl⟩
  | begin x th =>
    simp only [step] at h
    split_ifs at h
    split at h
    · obtain rfl := Option.some.inj h
      exact ⟨rfl, fun _ => rfl⟩
    · next th' htxn =>
      obtain rfl := Option.some.inj h
      exact ⟨rfl, fun hb => nomatch (hb x th rfl).symm.trans htxn⟩
  | sendMessages x | scan x | deleteOldMessages x =>
    simp only [step] at h
    split_ifs at h
    obtain ⟨hx, hy, hf⟩ := link_of_linkStep h
    exact ⟨⟨hx, hy⟩, fun _ => hf⟩
  | destroy x =>
    obtain rfl := Option.some.inj h
    exact ⟨rfl, fun _ => rfl⟩

/-- The steps of a `ReceiveMessages`. -/
theorem Link.step_receive {l l' : Link} {b : LinkAct} (h : l.step lim b = some l')
    (hpush : ∀ m, b ≠ .push m) (hset : ∀ i o, b ≠ .setOverwriteMode i o) (hsend : b ≠ .sendMessages) :
    l'.outbox = l.outbox ∧ l.inbox <+: l'.inbox := by
  cases b with
  | push m => exact absurd rfl (hpush m)
  | setOverwriteMode i o => exact absurd rfl (hset i o)
  | sendMessages => exact absurd rfl hsend
  | scan =>
    obtain ⟨ho, -, -, hi, -⟩ := Link.step_scan h
    exact ⟨ho, hi ▸ List.prefix_append _ _⟩
  | deleteOldMessages =>
    obtain ⟨ho, -, hi, -⟩ := Link.step_deleteOldMessages h
    exact ⟨ho, hi ▸ List.prefix_refl _⟩

/-- A step that is about no direction. -/
theorem Sqlite.queues_eq (h : s.step lim a = some t) (ha : a.linkAct = none) :
    (fun x => (t.link x).outbox.map Tagged.val) = (fun x => (s.link x).outbox.map Tagged.val) ∧
      (fun x => (t.link !x).inbox.map Tagged.val) = fun x => (s.link !x).inbox.map Tagged.val := by
  have hlink := (step_link h).1
  rw [ha] at hlink
  rw [hlink]
  exact ⟨rfl, rfl⟩

end

/-- The SQLite medium between two objects. -/
def sqlite (lim : Limits) : Transport Message Sqlite SqliteAct where
  step s a := s.step lim a
  push x m := .push x m
  destroy x := .destroy x
  call
    | .push _ _ | .destroy _ => .none
    | .sendNothing x | .begin x .send => .sendMessages x true
    | .sendMessages x => .sendMessages x false
    | .scan x => .receiveMessages x true
    | .begin x .receive | .deleteOldMessages x => .receiveMessages x false
  outbox s x := (s.link x).outbox.map Tagged.val
  inbox s x := (s.link !x).inbox.map Tagged.val
  sendReturns s x := s.txn x ≠ some .send ∧ s.failed x = false
  receiveReturns s x := (s.link !x).reference.isNone
  push_spec := by
    intro s t x m h
    obtain ⟨⟨hx, hy⟩, -⟩ := Sqlite.step_link h
    have hstep := Link.step_push hx
    refine ⟨?_, fun y hne => by rw [hy y hne], funext fun y =>
      congr_of_step (f := fun l => l.inbox.map Tagged.val) (by rw [hstep]) hy _⟩
    rw [hstep, List.map_append]
    rfl
  destroy_spec h := Sqlite.queues_eq h rfl
  send_spec := by
    intro s t a x b hc h
    cases a with
    | sendNothing y =>
      obtain ⟨hout, hin⟩ := Sqlite.queues_eq h rfl
      exact ⟨fun z _ => congrFun hout z, hin⟩
    | begin y th =>
      obtain ⟨hout, hin⟩ := Sqlite.queues_eq h rfl
      exact ⟨fun z _ => congrFun hout z, hin⟩
    | sendMessages y =>
      cases hc
      obtain ⟨⟨hx, hy⟩, -⟩ := Sqlite.step_link h
      obtain ⟨table, -, hstep⟩ := Link.step_sendMessages hx
      exact ⟨fun z hne => by rw [hy z hne], funext fun z =>
        congr_of_step (f := fun l => l.inbox.map Tagged.val) (by rw [hstep]) hy _⟩
    | push | scan | deleteOldMessages | destroy => cases hc
  receive_spec := by
    intro s t a x b hc h
    have hother : ∀ z, z ≠ x → (!z) ≠ !x := fun z hz h => hz (Bool.not_inj h)
    cases a with
    | scan y | deleteOldMessages y =>
      cases hc
      obtain ⟨⟨hx, hy⟩, -⟩ := Sqlite.step_link h
      obtain ⟨ho, hi⟩ := Link.step_receive hx nofun nofun nofun
      exact ⟨hi.map _, fun z hz => by rw [hy _ (hother z hz)],
        funext fun z => congr_of_step (f := fun l => l.outbox.map Tagged.val) (by rw [ho]) hy z⟩
    | begin y th =>
      obtain ⟨hout, hin⟩ := Sqlite.queues_eq h rfl
      exact ⟨congrFun hin x ▸ List.prefix_refl _, fun z _ => congrFun hin z, hout⟩
    | sendNothing | sendMessages | push | destroy => cases hc
  internal_spec := by
    intro s t a hc h
    cases a with
    | begin y th => cases th <;> cases hc
    | push | sendNothing | sendMessages | scan | deleteOldMessages | destroy => cases hc

/-! ## Every run -/

section

variable {lim : Limits} {s t : Sqlite} {x : Bool}

/-- Only a push adds to what was pushed. -/
theorem mem_pushed_step {l l' : Link} {b : LinkAct} (h : l.step lim b = some l')
    {m : Tagged Message} (hm : m ∈ l'.pushed) : m ∈ l.pushed ∨ b = .push m.val := by
  cases b with
  | push m' =>
    rw [Link.step_push h] at hm
    rcases List.mem_append.mp hm with hm | hm
    · exact .inl hm
    · rw [List.mem_singleton.mp hm]
      exact .inr rfl
  | setOverwriteMode i o =>
    rw [Link.step_setOverwriteMode h] at hm
    exact .inl hm
  | sendMessages =>
    obtain ⟨table, -, rfl⟩ := Link.step_sendMessages h
    exact .inl hm
  | scan =>
    obtain ⟨-, hp, -⟩ := Link.step_scan h
    exact .inl (hp ▸ hm)
  | deleteOldMessages =>
    obtain ⟨-, hp, -⟩ := Link.step_deleteOldMessages h
    exact .inl (hp ▸ hm)

/-- The steps in one direction are those of plain messages. -/
theorem plain_of_admits {P : Message → Prop} {a : SqliteAct} {b : LinkAct}
    (ha : (sqlite lim).Admits P a) (hP : ∀ m, P m → m.overwrite = false)
    (hl : a.linkAct = some (x, b)) : b.plain ∧ ∀ m, b = .push m → P m := by
  cases a with
  | push y m =>
    cases hl
    rcases ha with hcall | ⟨z, hd⟩ | ⟨z, m', hm, hPm⟩
    · exact absurd rfl hcall
    · cases hd
    · cases hm
      exact ⟨hP m hPm, fun m' h => LinkAct.push.inj h ▸ hPm⟩
  | sendMessages | scan | deleteOldMessages =>
    cases hl
    exact ⟨trivial, nofun⟩
  | sendNothing | begin | destroy => cases hl

/-- A direction makes a run of plain messages. -/
theorem link_exec {bs : List SqliteAct} {P : Message → Prop}
    (h : exec (sqlite lim).step Sqlite.init bs = some t)
    (hb : ∀ b ∈ bs, (sqlite lim).Admits P b) (hP : ∀ m, P m → m.overwrite = false) (x : Bool) :
    (∃ as, exec (Link.step lim) Link.init as = some (t.link x) ∧ ∀ a ∈ as, a.plain) ∧
      ∀ m ∈ (t.link x).pushed, P m.val := by
  refine exec_invariant_along (C := fun _ b => (sqlite lim).Admits P b)
    (I := fun s : Sqlite =>
      (∃ as, exec (Link.step lim) Link.init as = some (s.link x) ∧ ∀ a ∈ as, a.plain) ∧
        ∀ m ∈ (s.link x).pushed, P m.val)
    (fun s b u hI hadm hs => ?_) h (along_of_forall fun b hmem _ => hb b hmem) ⟨⟨[], rfl, nofun⟩, nofun⟩
  have hlink := (Sqlite.step_link hs).1
  cases hl : b.linkAct with
  | none =>
    rw [hl] at hlink
    rw [hlink]
    exact hI
  | some ya =>
    obtain ⟨y, a⟩ := ya
    rw [hl] at hlink
    obtain ⟨hx, hy⟩ := hlink
    by_cases hne : x = y
    · subst hne
      obtain ⟨⟨as, has, hplain⟩, hpushed⟩ := hI
      obtain ⟨ha, hpush⟩ := plain_of_admits hadm hP hl
      refine ⟨⟨as ++ [a], exec_trans has (exec_cons_eq_some.mpr ⟨_, hx, rfl⟩), fun b hb => ?_⟩,
        fun m hm => ?_⟩
      · rcases List.mem_append.mp hb with hb | hb
        · exact hplain b hb
        · exact List.mem_singleton.mp hb ▸ ha
      · rcases mem_pushed_step hx hm with hm | hm
        · exact hpushed m hm
        · exact hpush m.val hm
    · rw [hy x hne]
      exact hI

namespace Sqlite

/-- Every `BEGIN` finds no transaction open on the connection that the two threads of its object
share. -/
def BeginsInAutocommit (c : Channel Message Sqlite) : ChannelAct Message SqliteAct → Prop
  | .medium (.begin x _) => c.medium.txn x = none
  | _ => True

instance (c : Channel Message Sqlite) : ∀ a, Decidable (BeginsInAutocommit c a)
  | .medium (.begin x _) => inferInstanceAs (Decidable (c.medium.txn x = none))
  | .medium (.push _ _) | .medium (.sendNothing _) | .medium (.sendMessages _) | .medium (.scan _)
  | .medium (.deleteOldMessages _) | .medium (.destroy _) | .sender _ | .receiver _
  | .sendMessage _ _ _ | .caller _ _ | .destructor _ => isTrue trivial

/-- **Then no `BEGIN` fails.** -/
theorem failed_step {c c' : Channel Message Sqlite} {a : ChannelAct Message SqliteAct}
    (hC : BeginsInAutocommit c a) (hs : Channel.step (sqlite lim) c a = some c') :
    c'.medium.failed = c.medium.failed := by
  cases Channel.step_effect hs with
  | sender | sendReturns | receiver | receiveReturns | sendMessage | caller | destructor => rfl
  | @push x n m o medium hc hm ho =>
    have hpush : c.medium.step lim (.push x m) = some medium := hm
    exact (step_link hpush).2 nofun
  | @destroy x o medium hd hm ho =>
    have hdestroy : c.medium.step lim (.destroy x) = some medium := hm
    exact (step_link hdestroy).2 nofun
  | sendMessages hcall hp hm | receiveMessages hcall hp hm | internal hcall hm =>
    refine (step_link hm).2 fun y th hb => ?_
    subst hb
    exact hC

end Sqlite

/-- **End to end over SQLite.** Two objects, each with its send thread, its receive thread with
listeners that may send, any number of callers and its destructor, under any interleaving in which
every `BEGIN` finds no transaction open on its connection: no call fails because of another, and the
messages passed to listeners, those in the inbox, those that a `ReceiveMessages` has read and not
returned, those in the table and those in the outbox are together the messages that the callers of
the other object have pushed, in order. -/
theorem sqlite_end_to_end {c : Channel Message Sqlite} {as : List (ChannelAct Message SqliteAct)}
    (h : exec (Channel.step (sqlite lim)) (Channel.init Sqlite.init) as = some c)
    (hC : Along (Channel.step (sqlite lim)) Sqlite.BeginsInAutocommit (Channel.init Sqlite.init) as)
    (ha : ∀ x n m, ChannelAct.sendMessage x n m ∈ as →
      m.overwrite = false ∧ m.getDataSize < 2 ^ 31) (x : Bool) :
    c.medium.failed x = false ∧
      (∃ read : List Message, (c.receiving (!x) = false → read = []) ∧
        ((c.object !x).dispatched ++ (c.object !x).inbox ++ read ++
            (c.medium.link x).unread.map Tagged.val ++ (c.medium.link x).outbox.map Tagged.val).map
          Message.view = (c.medium.link x).pushed.map fun m => m.val.view) ∧
      (c.sending x = false →
        (c.object x).loop.outbox = (c.medium.link x).outbox.map Tagged.val) := by
  have hfailed : c.medium.failed = fun _ => false :=
    exec_invariant_along (I := fun c : Channel Message Sqlite => c.medium.failed = fun _ => false)
      (fun _ _ _ hI hC hs => (Sqlite.failed_step hC hs).trans hI) h hC rfl
  have hc := Channel.coupled_exec h fun x => ⟨rfl, rfl⟩
  obtain ⟨bs, hbs, hadm⟩ := Channel.medium_exec h ha
  obtain ⟨⟨ls, hls, hplain⟩, hpushed⟩ := link_exec hbs hadm (fun m hm => hm.1) x
  obtain ⟨w, hw⟩ := Link.accounted_exec hls hplain
  have hfifo := hw.fifo_iff.mpr fun m hm => (hpushed m (List.mem_of_mem_take hm)).2
  obtain ⟨read, hread, hinbox⟩ := hc.inbox_eq !x
  have hx : (sqlite lim).inbox c.medium (!x) = (c.medium.link x).inbox.map Tagged.val := by
    show (c.medium.link !!x).inbox.map Tagged.val = _
    rw [Bool.not_not]
  refine ⟨congrFun hfailed x, ⟨read, hread, ?_⟩, (hc x).outbox⟩
  rw [← hinbox, hx, ← List.map_append, ← List.map_append, List.map_map]
  have hviews := congrArg (List.map Prod.snd) hfifo
  rwa [List.map_map, List.map_map] at hviews

/-- A message goes from a caller of one object to the listeners of the other. -/
def delivery : List (ChannelAct Message SqliteAct) :=
  [.sendMessage false 1 (.new [116] [7]), .caller false 1, .caller false 1, .caller false 1,
    .sender false, .sender false, .sender false, .sender false, .medium (.begin false .send),
    .medium (.sendMessages false), .sender false, .receiver true, .medium (.scan true),
    .medium (.begin true .receive), .medium (.deleteOldMessages true), .receiver true,
    .receiver true]

theorem sqlite_end_to_end_delivery : ∃ c : Channel Message Sqlite,
    exec (Channel.step (sqlite .default)) (Channel.init Sqlite.init) delivery = some c ∧
      (c.object true).dispatched = [.new [116] [7]] ∧
      ∃ read : List Message, (c.receiving true = false → read = []) ∧
        ((c.object true).dispatched ++ (c.object true).inbox ++ read ++
            (c.medium.link false).unread.map Tagged.val ++
              (c.medium.link false).outbox.map Tagged.val).map Message.view =
          (c.medium.link false).pushed.map fun m => m.val.view := by
  have hdisp : (exec (Channel.step (sqlite .default)) (Channel.init Sqlite.init) delivery).map
      (fun c => (c.object true).dispatched) = some [.new [116] [7]] := by
    decide +kernel
  obtain ⟨c, hc, hdisp⟩ := Option.map_eq_some_iff.mp hdisp
  refine ⟨c, hc, hdisp, (sqlite_end_to_end hc (by decide +kernel) (fun x n m hm => ?_) false).2.1⟩
  simp only [delivery, List.mem_cons, ChannelAct.sendMessage.injEq, reduceCtorEq, or_false,
    List.not_mem_nil] at hm
  obtain ⟨-, -, rfl⟩ := hm
  exact ⟨rfl, by decide⟩

/-- The receiving object has begun a transaction of its own when it comes to its `DELETE`. -/
example : (exec (Channel.step (sqlite .default)) (Channel.init Sqlite.init) (delivery.take 13 ++
    [.sendMessage true 1 (.new [116] [8]), .caller true 1, .caller true 1, .caller true 1,
      .sender true, .sender true, .sender true, .sender true, .medium (.begin true .send),
      .medium (.begin true .receive)])).map (fun c => c.medium.failed true) = some true := by
  decide +kernel

end

end Petunia
