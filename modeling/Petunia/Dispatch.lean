import Petunia.Listeners
import Petunia.Lib.Run

set_option autoImplicit false

/-!
# `Distribute` step by step, with listeners that act on the object

The `while` loop pops a message and finds its listeners; the `for` loop evaluates `search->second`
before every call. A listener may change the fields of the object it is registered with.

* `Fields`, `DistributePc`, `Dispatching`, `step`: the two loops of the source;
* `reaches_forLoop`, `reaches_erased`: what the `for` loop does, by whether the entry stays;
* **`distribute_dispatches`**: `Distribute` with listeners that keep registry and inbox
  (`refines_distribute`: it computes `distribute`).
-/

namespace Petunia

open CTypes Lts

variable {κ : Type*}

/-- The fields of a `Petunia` object that listeners and `Distribute` share. -/
@[ext] structure Fields (κ : Type*) where
  listeners : Listeners κ
  inbox : List Message
  outbox : List Message

/-- The next step of `Distribute`. -/
inductive DistributePc (κ : Type*)
  /-- `while (!m_inbox_queue.empty())`. -/
  | loop
  /-- `it != search->second->end()`, with the listeners from `it` on. -/
  | forLoop (message : Message) (it : List κ)
  | returned
  /-- `search->second` was evaluated after its entry had been erased. -/
  | erased

/-- A call of `Distribute`: the object, the value it will return, the next step and the listener
calls so far. -/
structure Dispatching (κ : Type*) where
  object : Fields κ
  count : ℕ
  pc : DistributePc κ
  calls : List (κ × Message)

namespace Dispatching

/-- On entry. -/
def start (object : Fields κ) : Dispatching κ := ⟨object, object.inbox.length, .loop, []⟩

/-- A step of `Distribute`, where `listen` says what a listener does to the object. The lists are
never freed, so `it` stays valid; an entry that a listener erases is not added again. -/
def step (listen : κ → Message → Fields κ → Fields κ) (s : Dispatching κ) (_ : Unit) :
    Option (Dispatching κ) :=
  match s.pc with
  | .loop =>
    match s.object.inbox with
    | [] => some { s with pc := .returned }
    | message :: inbox =>
      match s.object.listeners.lookup message.getType.bytes with
      | none => some { s with object := { s.object with inbox } }
      | some list => some { s with
          object := { s.object with inbox }
          pc := .forLoop message list }
  | .forLoop message it =>
    match s.object.listeners.lookup message.getType.bytes with
    | none => some { s with pc := .erased }
    | some _ =>
      match it with
      | [] => some { s with pc := .loop }
      | listener :: it => some { s with
          object := listen listener message s.object
          calls := s.calls ++ [(listener, message)]
          pc := .forLoop message it }
  | .returned => none
  | .erased => none

variable {listen : κ → Message → Fields κ → Fields κ}

/-! ## The `for` loop -/

/-- What the listeners from `it` on do to the object, one after the other. -/
def listenAll (listen : κ → Message → Fields κ → Fields κ) (message : Message) (it : List κ)
    (object : Fields κ) : Fields κ :=
  it.foldl (fun object listener => listen listener message object) object

/-- The entry of the message's type is there. -/
def Present (message : Message) (object : Fields κ) : Prop :=
  object.listeners.lookup message.getType.bytes ≠ none

theorem step_forLoop_nil {s : Dispatching κ} {message : Message} (hpc : s.pc = .forLoop message [])
    (h : Present message s.object) : step listen s () = some { s with pc := .loop } := by
  obtain ⟨list, hl⟩ := Option.ne_none_iff_exists'.mp h
  simp only [step, hpc, hl]

theorem step_forLoop_cons {s : Dispatching κ} {message : Message} {f : κ} {it : List κ}
    (hpc : s.pc = .forLoop message (f :: it)) (h : Present message s.object) :
    step listen s () = some ⟨listen f message s.object, s.count, .forLoop message it,
      s.calls ++ [(f, message)]⟩ := by
  obtain ⟨list, hl⟩ := Option.ne_none_iff_exists'.mp h
  simp only [step, hpc, hl]

theorem step_forLoop_erased {s : Dispatching κ} {message : Message} {it : List κ}
    (hpc : s.pc = .forLoop message it) (h : ¬ Present message s.object) :
    step listen s () = some { s with pc := .erased } := by
  simp only [step, hpc, not_not.mp h]

/-- **The `for` loop**, as long as the entry stays: one call to each listener, in the order of the
list. -/
theorem reaches_forLoop {s : Dispatching κ} {message : Message} {it : List κ}
    (hpc : s.pc = .forLoop message it)
    (h : ∀ done rest, it = done ++ rest →
      Present message (listenAll listen message done s.object)) :
    Reaches (step listen) s ⟨listenAll listen message it s.object, s.count, .loop,
      s.calls ++ it.map fun f => (f, message)⟩ := by
  induction it generalizing s with
  | nil =>
    rw [List.map_nil, List.append_nil]
    exact .single (step_forLoop_nil hpc (h [] [] rfl))
  | cons f it ih =>
    have hstep : step listen s () = _ := step_forLoop_cons hpc (h [] (f :: it) rfl)
    refine (Reaches.single hstep).trans ?_
    have := ih (s := ⟨listen f message s.object, s.count, .forLoop message it,
      s.calls ++ [(f, message)]⟩) rfl fun done rest he => h (f :: done) rest (he ▸ rfl)
    rwa [List.append_assoc] at this

/-- **The `for` loop**, when some of its calls erase the entry. -/
theorem reaches_erased {s : Dispatching κ} {message : Message} {done rest : List κ}
    (hpc : s.pc = .forLoop message (done ++ rest))
    (h : ¬ Present message (listenAll listen message done s.object)) :
    ∃ t, Reaches (step listen) s t ∧ t.pc = .erased := by
  induction done generalizing s with
  | nil => exact ⟨_, .single (step_forLoop_erased hpc h), rfl⟩
  | cons f done ih =>
    by_cases hp : Present message s.object
    · obtain ⟨t, ht, he⟩ := ih (s := ⟨listen f message s.object, s.count,
        .forLoop message (done ++ rest), s.calls ++ [(f, message)]⟩) rfl h
      exact ⟨t, (Reaches.single (step_forLoop_cons hpc hp)).trans ht, he⟩
    · exact ⟨_, .single (step_forLoop_erased hpc hp), rfl⟩

/-! ## The `while` loop -/

theorem step_loop_nil {s : Dispatching κ} (hpc : s.pc = .loop) (h : s.object.inbox = []) :
    step listen s () = some { s with pc := .returned } := by
  simp only [step, hpc, h]

theorem step_loop_cons {s : Dispatching κ} {message : Message} {inbox : List Message}
    (hpc : s.pc = .loop) (h : s.object.inbox = message :: inbox) :
    step listen s () = some
      ⟨{ s.object with inbox }, s.count,
        match s.object.listeners.lookup message.getType.bytes with
        | none => .loop
        | some list => .forLoop message list, s.calls⟩ := by
  simp only [step, hpc, h]
  cases s.object.listeners.lookup message.getType.bytes with
  | none => rw [← hpc]
  | some list => rfl

/-! ## Listeners that keep registry and inbox -/

/-- The listeners of the registry change neither the registry nor the inbox. -/
def Passive (listen : κ → Message → Fields κ → Fields κ) (listeners : Listeners κ) : Prop :=
  ∀ name, ∀ f ∈ listenersOf listeners name, ∀ message object,
    (listen f message object).listeners = object.listeners ∧
      (listen f message object).inbox = object.inbox

theorem listenAll_of_passive {listeners : Listeners κ} (h : Passive listen listeners)
    {name : Bytes} {it : List κ} (hit : ∀ f ∈ it, f ∈ listenersOf listeners name)
    (message : Message) (object : Fields κ) :
    (listenAll listen message it object).listeners = object.listeners ∧
      (listenAll listen message it object).inbox = object.inbox := by
  induction it generalizing object with
  | nil => exact ⟨rfl, rfl⟩
  | cons f it ih =>
    obtain ⟨hl, hi⟩ := h name f (hit f List.mem_cons_self) message object
    obtain ⟨hl', hi'⟩ :=
      ih (fun g hg => hit g (List.mem_cons_of_mem f hg)) (listen f message object)
    exact ⟨hl'.trans hl, hi'.trans hi⟩

/-- The calls that a message makes. -/
def callsOf (listeners : Listeners κ) (message : Message) : List (κ × Message) :=
  (listenersOf listeners message.getType.bytes).map fun f => (f, message)

/-- One turn of the `while` loop. -/
theorem reaches_turn {s : Dispatching κ} {message : Message} {inbox : List Message}
    (hpc : s.pc = .loop) (hi : s.object.inbox = message :: inbox)
    (h : Passive listen s.object.listeners) :
    ∃ outbox, Reaches (step listen) s ⟨⟨s.object.listeners, inbox, outbox⟩, s.count, .loop,
      s.calls ++ callsOf s.object.listeners message⟩ := by
  have hstep : step listen s () = _ := step_loop_cons hpc hi
  cases hl : s.object.listeners.lookup message.getType.bytes with
  | none =>
    rw [hl] at hstep
    refine ⟨s.object.outbox, ?_⟩
    rw [callsOf, listenersOf, hl, Option.getD_none, List.map_nil, List.append_nil]
    exact .single hstep
  | some list =>
    rw [hl] at hstep
    have hlist : list = listenersOf s.object.listeners message.getType.bytes := by
      rw [listenersOf, hl, Option.getD_some]
    have hkeep : ∀ done rest, list = done ++ rest →
        (listenAll listen message done { s.object with inbox }).listeners = s.object.listeners ∧
          (listenAll listen message done { s.object with inbox }).inbox = inbox :=
      fun done rest hd => listenAll_of_passive h
        (fun f hf => hlist ▸ hd ▸ List.mem_append_left rest hf) message _
    refine ⟨(listenAll listen message list { s.object with inbox }).outbox, ?_⟩
    refine (Reaches.single hstep).trans ?_
    have hfor : Reaches (step listen)
        ⟨{ s.object with inbox }, s.count, .forLoop message list, s.calls⟩ _ :=
      reaches_forLoop rfl fun done rest hd => by
        rw [Present, (hkeep done rest hd).1, hl]
        exact Option.some_ne_none list
    have hobject : listenAll listen message list { s.object with inbox } =
        ⟨s.object.listeners, inbox,
          (listenAll listen message list { s.object with inbox }).outbox⟩ :=
      Fields.ext (hkeep list [] (List.append_nil list).symm).1
        (hkeep list [] (List.append_nil list).symm).2 rfl
    rw [callsOf, ← hlist, ← hobject]
    exact hfor

theorem reaches_returned {s : Dispatching κ} {inbox : List Message} (hpc : s.pc = .loop)
    (hi : s.object.inbox = inbox) (h : Passive listen s.object.listeners) :
    ∃ outbox, Reaches (step listen) s ⟨⟨s.object.listeners, [], outbox⟩, s.count, .returned,
      s.calls ++ inbox.flatMap (callsOf s.object.listeners)⟩ := by
  induction inbox generalizing s with
  | nil =>
    refine ⟨s.object.outbox, ?_⟩
    have hstep : step listen s () = _ := step_loop_nil hpc hi
    rw [List.flatMap_nil, List.append_nil]
    rw [show s.object = ⟨s.object.listeners, [], s.object.outbox⟩ by rw [← hi]] at hstep
    exact .single hstep
  | cons message inbox ih =>
    obtain ⟨outbox, hturn⟩ := reaches_turn hpc hi h
    obtain ⟨outbox', hrest⟩ := ih (s := ⟨⟨s.object.listeners, inbox, outbox⟩, s.count, .loop,
      s.calls ++ callsOf s.object.listeners message⟩) rfl rfl h
    refine ⟨outbox', hturn.trans ?_⟩
    rwa [List.append_assoc] at hrest

/-- **`Distribute` dispatches every message to the listeners of its type**, in order, and ends with
an empty inbox and the registry it found. -/
theorem distribute_dispatches (listen : κ → Message → Fields κ → Fields κ) (object : Fields κ)
    (h : Passive listen object.listeners) :
    ∃ s, Reaches (step listen) (start object) s ∧
      (∀ t, Reaches (step listen) (start object) t → Reaches (step listen) t s) ∧
      s.pc = .returned ∧ s.count = object.inbox.length ∧ s.object.inbox = [] ∧
      s.object.listeners = object.listeners ∧
      s.calls = object.inbox.flatMap fun m =>
        (listenersOf object.listeners m.getType.bytes).map fun f => (f, m) := by
  obtain ⟨outbox, hs⟩ := reaches_returned (s := start object) rfl rfl h
  exact ⟨_, hs, fun t ht => ht.of_final hs rfl, rfl, rfl, rfl, rfl, List.nil_append _⟩

/-- Messages of two types, the first with two listeners, which answer with what they have heard. -/
theorem distribute_dispatches_answer :
    ∃ s, Reaches (step fun _ m o => { o with outbox := o.outbox ++ [m] })
        (start ⟨AList.insert [97] [0, 1] (AList.insert [98] [2] ∅),
          [.new [97] [1], .new [98] [2], .new [97] [3]], []⟩) s ∧
      s.pc = .returned ∧ s.count = 3 ∧ s.calls = [(0, .new [97] [1]), (1, .new [97] [1]),
        (2, .new [98] [2]), (0, .new [97] [3]), (1, .new [97] [3])] := by
  obtain ⟨s, hs, -, hpc, hcount, -, -, hcalls⟩ := distribute_dispatches
    (fun (_ : ℕ) m o => { o with outbox := o.outbox ++ [m] })
    ⟨AList.insert [97] [0, 1] (AList.insert [98] [2] ∅),
      [.new [97] [1], .new [98] [2], .new [97] [3]], []⟩ fun _ _ _ _ _ => ⟨rfl, rfl⟩
  exact ⟨s, hs, hpc, hcount, hcalls⟩

/-- The two loops, step by step, compute `distribute`. -/
theorem refines_distribute (object : Fields κ) (h : Passive listen object.listeners) :
    ∃ s, Reaches (step listen) (start object) s ∧ s.pc = .returned ∧
      (⟨s.count, s.object.inbox, s.calls⟩ : Distributed κ) =
        distribute object.listeners object.inbox := by
  obtain ⟨outbox, hs⟩ := reaches_returned (s := start object) rfl rfl h
  refine ⟨_, hs, rfl, ?_⟩
  rw [distribute, distributeLoop_eq]
  rfl

end Dispatching

end Petunia
