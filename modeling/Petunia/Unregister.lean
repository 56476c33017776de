import Petunia.Dispatch

set_option autoImplicit false

/-!
# Listeners that unregister

A listener may call `SendMessage`, `RemoveListeners`, `Clear` and `ClearListeners` on the object
that is calling it, while the `for` loop of `Distribute` holds an iterator to an entry.

* `ListenerOp`, `runProgram`: the calls of a listener, and a finite program of them;
* `Keeps`: no listener erases the type of the message it is called with;
* `Without`: a registry from which some names have been erased (`without_listenAll`);
* **`erased_unreachable_iff`**: when `search->second` always refers to an entry.
-/

namespace Petunia

open CTypes Lts

variable {κ : Type*}

/-- A call that a listener makes on its own endpoint. -/
inductive ListenerOp
  | sendMessage (message : Message)
  | removeListeners (name : Bytes)
  | clear
  | clearListeners

namespace ListenerOp

def perform (object : Fields κ) : ListenerOp → Fields κ
  | .sendMessage message => { object with outbox := object.outbox ++ [message] }
  | .removeListeners name =>
    { object with listeners := (Petunia.removeListeners object.listeners name).2 }
  | .clear => { object with listeners := Petunia.clear object.listeners }
  | .clearListeners => { object with listeners := Petunia.clearListeners object.listeners }

/-- The call leaves no entry for the name. -/
def Erases (name : Bytes) : ListenerOp → Prop
  | .sendMessage _ => False
  | .removeListeners k => k = name
  | .clear => True
  | .clearListeners => True

end ListenerOp

/-- A listener performs its program, whatever the message. -/
def runProgram (program : κ → List ListenerOp) (listener : κ) (_ : Message) (object : Fields κ) :
    Fields κ :=
  (program listener).foldl ListenerOp.perform object

/-- One of the listeners erases the name. -/
def ErasedBy (program : κ → List ListenerOp) (list : List κ) (name : Bytes) : Prop :=
  ∃ f ∈ list, ∃ op ∈ program f, op.Erases name

/-- **No listener erases the type of the message it is called with.** A message whose type is gone
has no listeners, and those of the earlier messages decide what is gone. -/
def Keeps (program : κ → List ListenerOp) (listeners : Listeners κ) :
    (gone : Bytes → Prop) → List Message → Prop
  | _, [] => True
  | gone, message :: inbox =>
    let type := message.getType.bytes
    let list := listenersOf listeners type
    (¬ gone type → ¬ ErasedBy program list type) ∧
      Keeps program listeners (fun k => gone k ∨ ¬ gone type ∧ ErasedBy program list k) inbox

/-- Listeners that erase only other names than their own. -/
theorem keeps_of_forall {program : κ → List ListenerOp} {listeners : Listeners κ}
    (h : ∀ name, ¬ ErasedBy program (listenersOf listeners name) name) (inbox : List Message)
    (gone : Bytes → Prop) : Keeps program listeners gone inbox := by
  induction inbox generalizing gone with
  | nil => trivial
  | cons message inbox ih => exact ⟨fun _ => h message.getType.bytes, ih _⟩

/-- The registry without the entries of the names in `P`. -/
def Without (P : Bytes → Prop) (listeners listeners' : Listeners κ) : Prop :=
  ∀ k, (P k → listeners'.lookup k = none) ∧ (¬ P k → listeners'.lookup k = listeners.lookup k)

theorem Without.refl (listeners : Listeners κ) : Without (fun _ => False) listeners listeners :=
  fun _ => ⟨False.elim, fun _ => rfl⟩

theorem Without.trans {P Q : Bytes → Prop} {l l' l'' : Listeners κ} (h : Without P l l')
    (h' : Without Q l' l'') : Without (fun k => P k ∨ Q k) l l'' := by
  intro k
  constructor
  · intro hk
    by_cases hq : Q k
    · exact (h' k).1 hq
    · exact ((h' k).2 hq).trans ((h k).1 (hk.resolve_right hq))
  · intro hk
    rw [not_or] at hk
    exact ((h' k).2 hk.2).trans ((h k).2 hk.1)

theorem Without.congr {P Q : Bytes → Prop} {l l' : Listeners κ} (h : Without P l l')
    (hPQ : ∀ k, Q k ↔ P k) : Without Q l l' :=
  fun k => ⟨fun hk => (h k).1 ((hPQ k).mp hk), fun hk => (h k).2 fun hp => hk ((hPQ k).mpr hp)⟩

theorem without_perform (op : ListenerOp) (object : Fields κ) :
    Without op.Erases object.listeners (op.perform object).listeners := by
  intro k
  cases op with
  | sendMessage message => exact ⟨False.elim, fun _ => rfl⟩
  | removeListeners name =>
    constructor
    · rintro rfl
      exact (lookup_removeListeners _ _ _).trans (if_pos rfl)
    · intro hk
      exact (lookup_removeListeners _ _ _).trans (if_neg fun e => hk e.symm)
  | clear => exact ⟨fun _ => lookup_clearListeners object.listeners k, fun hk => absurd trivial hk⟩
  | clearListeners =>
    exact ⟨fun _ => lookup_clearListeners object.listeners k, fun hk => absurd trivial hk⟩

theorem inbox_perform (op : ListenerOp) (object : Fields κ) :
    (op.perform object).inbox = object.inbox := by
  cases op <;> rfl

/-- **What a program does**: it erases the names that one of its calls erases. -/
theorem without_foldl_perform (ops : List ListenerOp) (object : Fields κ) :
    Without (fun k => ∃ op ∈ ops, op.Erases k) object.listeners
      (ops.foldl ListenerOp.perform object).listeners := by
  induction ops generalizing object with
  | nil => exact (Without.refl _).congr fun k => by simp
  | cons op ops ih =>
    exact ((without_perform op object).trans (ih (op.perform object))).congr fun k => by simp

theorem inbox_foldl_perform (ops : List ListenerOp) (object : Fields κ) :
    (ops.foldl ListenerOp.perform object).inbox = object.inbox := by
  induction ops generalizing object with
  | nil => rfl
  | cons op ops ih => exact (ih _).trans (inbox_perform op object)

/-! ## When the entry stays -/

namespace Dispatching

variable {program : κ → List ListenerOp}

theorem without_listenAll (message : Message) (it : List κ) (object : Fields κ) :
    Without (ErasedBy program it) object.listeners
      (listenAll (runProgram program) message it object).listeners := by
  induction it generalizing object with
  | nil => exact (Without.refl _).congr fun k => by simp [ErasedBy]
  | cons f it ih =>
    exact ((without_foldl_perform (program f) object).trans (ih _)).congr fun k => by
      simp [ErasedBy]

theorem inbox_listenAll (message : Message) (it : List κ) (object : Fields κ) :
    (listenAll (runProgram program) message it object).inbox = object.inbox := by
  induction it generalizing object with
  | nil => rfl
  | cons f it ih => exact (ih _).trans (inbox_foldl_perform (program f) object)

theorem erasedBy_append_left {done rest : List κ} {name : Bytes} (h : ErasedBy program done name) :
    ErasedBy program (done ++ rest) name := by
  obtain ⟨f, hf, hop⟩ := h
  exact ⟨f, List.mem_append_left rest hf, hop⟩

variable (program) in
/-- A message whose type has no entry. -/
theorem turn_of_lookup_eq_none {s : Dispatching κ} {message : Message} {inbox : List Message}
    (hpc : s.pc = .loop) (hi : s.object.inbox = message :: inbox)
    (hl : s.object.listeners.lookup message.getType.bytes = none) :
    ∃ t, Reaches (step (runProgram program)) s t ∧ t.pc = .loop ∧ t.object.inbox = inbox ∧
      t.object.listeners = s.object.listeners := by
  have hstep : step (runProgram program) s () = _ := step_loop_cons hpc hi
  rw [hl] at hstep
  exact ⟨_, .single hstep, rfl, rfl, rfl⟩

/-- A message whose listeners erase its type: when the last of them has run, the entry is not
there. -/
theorem erased_of_erasedBy {s : Dispatching κ} {message : Message} {inbox : List Message}
    {list : List κ} (hpc : s.pc = .loop) (hi : s.object.inbox = message :: inbox)
    (hl : s.object.listeners.lookup message.getType.bytes = some list)
    (he : ErasedBy program list message.getType.bytes) :
    ∃ t, Reaches (step (runProgram program)) s t ∧ t.pc = .erased := by
  have hstep : step (runProgram program) s () = _ := step_loop_cons hpc hi
  rw [hl] at hstep
  have hnone : ¬ Present message
      (listenAll (runProgram program) message list { s.object with inbox }) :=
    fun hp => hp ((without_listenAll message list _ message.getType.bytes).1 he)
  have hpc' : DistributePc.forLoop message list = .forLoop message (list ++ []) := by
    rw [List.append_nil]
  obtain ⟨t, hr, hp⟩ := reaches_erased
    (s := ⟨{ s.object with inbox }, s.count, .forLoop message list, s.calls⟩) hpc' hnone
  exact ⟨t, (Reaches.single hstep).trans hr, hp⟩

/-- A message whose listeners leave its type. -/
theorem turn_of_not_erasedBy {s : Dispatching κ} {message : Message} {inbox : List Message}
    {list : List κ} (hpc : s.pc = .loop) (hi : s.object.inbox = message :: inbox)
    (hl : s.object.listeners.lookup message.getType.bytes = some list)
    (he : ¬ ErasedBy program list message.getType.bytes) :
    ∃ t, Reaches (step (runProgram program)) s t ∧ t.pc = .loop ∧ t.object.inbox = inbox ∧
      Without (ErasedBy program list) s.object.listeners t.object.listeners := by
  have hstep : step (runProgram program) s () = _ := step_loop_cons hpc hi
  rw [hl] at hstep
  have hfor : Reaches (step (runProgram program))
      ⟨{ s.object with inbox }, s.count, .forLoop message list, s.calls⟩ _ :=
    reaches_forLoop rfl fun done rest hd => by
      have hne : ¬ ErasedBy program done message.getType.bytes :=
        fun h => he (hd ▸ erasedBy_append_left h)
      rw [Present, (without_listenAll message done _ _).2 hne, hl]
      exact Option.some_ne_none list
  exact ⟨_, (Reaches.single hstep).trans hfor, rfl, inbox_listenAll message list _,
    without_listenAll message list { s.object with inbox }⟩

/-- One turn of the `while` loop: the listeners of a type that is not gone erase it, or the loop
goes on without the names that they erase. -/
theorem turn_runProgram {listeners : Listeners κ} {gone : Bytes → Prop} {message : Message}
    {inbox : List Message} {s : Dispatching κ} (hpc : s.pc = .loop)
    (hi : s.object.inbox = message :: inbox) (hg : Without gone listeners s.object.listeners) :
    let type := message.getType.bytes
    let list := listenersOf listeners type
    (¬ gone type ∧ ErasedBy program list type ∧
        ∃ t, Reaches (step (runProgram program)) s t ∧ t.pc = .erased) ∨
      ((¬ gone type → ¬ ErasedBy program list type) ∧
        ∃ t, Reaches (step (runProgram program)) s t ∧ t.pc = .loop ∧ t.object.inbox = inbox ∧
          Without (fun k => gone k ∨ ¬ gone type ∧ ErasedBy program list k) listeners
            t.object.listeners) := by
  intro type list
  by_cases ht : gone type
  · -- a type that is gone has no entry
    obtain ⟨t, hr, hp, hin, he⟩ :=
      turn_of_lookup_eq_none program hpc hi ((hg type).1 ht)
    refine .inr ⟨fun hn => absurd ht hn, t, hr, hp, hin, he ▸ hg.congr fun k => ?_⟩
    simp [ht]
  · have hl : s.object.listeners.lookup type = listeners.lookup type := (hg type).2 ht
    cases hf : listeners.lookup type with
    | none =>
      have hlist : list = [] := congrArg (Option.getD · []) hf
      obtain ⟨t, hr, hp, hin, he⟩ :=
        turn_of_lookup_eq_none program hpc hi (hl.trans hf)
      refine .inr ⟨fun _ => ?_, t, hr, hp, hin, he ▸ hg.congr fun k => ?_⟩
      · simp [hlist, ErasedBy]
      · simp [hlist, ErasedBy]
    | some l =>
      have hlist : list = l := congrArg (Option.getD · []) hf
      have hentry : s.object.listeners.lookup type = some list := by rw [hl, hf, hlist]
      by_cases he : ErasedBy program list type
      · exact .inl ⟨ht, he, erased_of_erasedBy hpc hi hentry he⟩
      · obtain ⟨t, hr, hp, hin, hw⟩ := turn_of_not_erasedBy hpc hi hentry he
        refine .inr ⟨fun _ => he, t, hr, hp, hin, (hg.trans hw).congr fun k => ?_⟩
        simp [ht]

/-- **The run of `Distribute`**, by whether an entry is erased under the `for` loop. -/
theorem reaches_end {listeners : Listeners κ} {gone : Bytes → Prop} {inbox : List Message}
    {s : Dispatching κ} (hpc : s.pc = .loop) (hi : s.object.inbox = inbox)
    (hg : Without gone listeners s.object.listeners) :
    (Keeps program listeners gone inbox ∧
        ∃ t, Reaches (step (runProgram program)) s t ∧ t.pc = .returned) ∨
      (¬ Keeps program listeners gone inbox ∧
        ∃ t, Reaches (step (runProgram program)) s t ∧ t.pc = .erased) := by
  induction inbox generalizing gone s with
  | nil => exact .inl ⟨trivial, _, .single (step_loop_nil hpc hi), rfl⟩
  | cons message inbox ih =>
    rcases turn_runProgram hpc hi hg with ⟨ht, he, hr⟩ | ⟨hne, u, hu, hpc', hi', hg'⟩
    · exact .inr ⟨fun hk => hk.1 ht he, hr⟩
    · rcases ih hpc' hi' hg' with ⟨hk, t, ht, hp⟩ | ⟨hk, t, ht, hp⟩
      · exact .inl ⟨⟨hne, hk⟩, t, hu.trans ht, hp⟩
      · exact .inr ⟨fun h => hk h.2, t, hu.trans ht, hp⟩

theorem pc_ne_erased_of_reaches {s t u : Dispatching κ} {listen : κ → Message → Fields κ → Fields κ}
    (ht : Reaches (step listen) s t) (hpc : t.pc = .returned) (hu : Reaches (step listen) s u) :
    u.pc ≠ .erased := by
  intro he
  -- the call returns, and an erased entry would have no step
  have hfinal : step listen t () = none := by simp only [step, hpc]
  obtain ⟨as, has⟩ := hu.of_final ht hfinal
  cases as with
  | nil =>
    cases has
    rw [hpc] at he
    cases he
  | cons a as =>
    obtain ⟨v, hv, -⟩ := exec_cons_eq_some.mp has
    simp only [step, he] at hv
    cases hv

/-- **When every `search->second` refers to an entry**: no listener erases the type of the message
it is called with. -/
theorem erased_unreachable_iff (program : κ → List ListenerOp) (object : Fields κ) :
    (∀ s, Reaches (step (runProgram program)) (start object) s → s.pc ≠ .erased) ↔
      Keeps program object.listeners (fun _ => False) object.inbox := by
  rcases reaches_end (s := start object) rfl rfl (Without.refl object.listeners) with
    ⟨hk, t, ht, hp⟩ | ⟨hk, t, ht, hp⟩
  · exact ⟨fun _ => hk, fun _ s hs => pc_ne_erased_of_reaches ht hp hs⟩
  · exact ⟨fun h => absurd hp (h t ht), fun h => absurd h hk⟩

/-- A listener that removes the name it is registered under: `search->second` is read once more
before the loop ends. -/
theorem erased_reachable :
    ∃ listeners, addListener ∅ [97] 0 = some (1, listeners) ∧
      ∃ s, Reaches (step (runProgram fun _ : ℕ => [.removeListeners [97]]))
        (start ⟨listeners, [Message.new [97] []], []⟩) s ∧ s.pc = .erased :=
  ⟨AList.insert [97] [0] ∅, rfl, _, ⟨[(), (), ()], rfl⟩, rfl⟩

/-- Listeners that unregister the types of other messages are safe, and `Distribute` returns. -/
theorem reaches_returned_of_forall {object : Fields κ}
    (h : ∀ name, ¬ ErasedBy program (listenersOf object.listeners name) name) :
    ∃ s, Reaches (step (runProgram program)) (start object) s ∧ s.pc = .returned := by
  rcases reaches_end (s := start object) rfl rfl (Without.refl object.listeners) with h' | h'
  · exact h'.2
  · exact absurd (keeps_of_forall h object.inbox _) h'.1

end Dispatching

end Petunia
