import Mathlib.Data.List.AList
import Petunia.Message

set_option autoImplicit false

/-!
# Listeners and `Distribute`

`m_message_listeners` maps a name to a list of listeners. `Distribute` empties the inbox and calls
the listeners registered under the type of each message.

* `addListener`, `removeListeners`, `clear`, `clearListeners`, `distributeLoop`, `distribute`: the
  functions of the source;
* `calls_distribute`: the calls that `Distribute` makes, as a whole;
* `Registered`: a listener is registered under one name (`registered_addListener`).
-/

namespace Petunia

open CTypes

/-- `m_message_listeners`, for listeners of any type. -/
abbrev Listeners (κ : Type*) := AList fun _ : Bytes => List κ

variable {κ : Type*}

/-- `AddListener`: the size of the list and the map. The list is created only if `find` has found
none, and `none` is the dereference of `nullptr`. -/
def addListener (listeners : Listeners κ) (name : Bytes) (listener : κ) :
    Option (ℕ × Listeners κ) :=
  let list : Option (List κ) := if listeners.lookup name = none then some [] else none
  list.map fun list =>
    ((listener :: list).length, listeners.insert name (listener :: list))

/-- `RemoveListeners`: whether `find` has found the name, and the map. -/
def removeListeners (listeners : Listeners κ) (name : Bytes) : Bool × Listeners κ :=
  if listeners.lookup name = none then (false, listeners) else (true, listeners.erase name)

/-- `ClearListeners`. -/
def clearListeners (_ : Listeners κ) : Listeners κ := ∅

/-- `Clear`: `ClearPromises` is empty. -/
def clear (listeners : Listeners κ) : Listeners κ := clearListeners listeners

/-- The `for` loop of `Distribute`: the calls made so far and those of one message. -/
def callListeners (message : Message) (calls : List (κ × Message)) (list : List κ) :
    List (κ × Message) :=
  list.foldl (fun calls listener => calls ++ [(listener, message)]) calls

/-- The `while` loop of `Distribute`: the inbox it leaves and the calls it makes. -/
def distributeLoop (listeners : Listeners κ) :
    List Message → List (κ × Message) → List Message × List (κ × Message)
  | [], calls => ([], calls)
  | message :: inbox, calls =>
    match listeners.lookup message.getType.bytes with
    | none => distributeLoop listeners inbox calls
    | some list => distributeLoop listeners inbox (callListeners message calls list)

/-- What `Distribute` returns, the inbox that it leaves and the calls that it makes. -/
structure Distributed (κ : Type*) where
  count : ℕ
  inbox : List Message
  calls : List (κ × Message)

/-- `Distribute`. -/
def distribute (listeners : Listeners κ) (inbox : List Message) : Distributed κ where
  count := inbox.length
  inbox := (distributeLoop listeners inbox []).1
  calls := (distributeLoop listeners inbox []).2

/-- The listeners under a name, none if it has no entry. -/
def listenersOf (listeners : Listeners κ) (name : Bytes) : List κ :=
  (listeners.lookup name).getD []

theorem callListeners_eq (message : Message) (calls : List (κ × Message)) (list : List κ) :
    callListeners message calls list = calls ++ list.map fun f => (f, message) := by
  rw [callListeners]
  induction list generalizing calls with
  | nil => simp
  | cons f list ih => rw [List.foldl_cons, ih, List.map_cons, List.append_assoc]; rfl

theorem distributeLoop_eq (listeners : Listeners κ) (inbox : List Message)
    (calls : List (κ × Message)) :
    distributeLoop listeners inbox calls = ([], calls ++ inbox.flatMap fun m =>
      (listenersOf listeners m.getType.bytes).map fun f => (f, m)) := by
  induction inbox generalizing calls with
  | nil => simp [distributeLoop]
  | cons m inbox ih =>
    rw [distributeLoop]
    cases h : listeners.lookup m.getType.bytes with
    | none =>
      simp only [ih, List.flatMap_cons, listenersOf, h, Option.getD_none, List.map_nil,
        List.nil_append]
    | some list =>
      simp only [ih, callListeners_eq, List.flatMap_cons, listenersOf, h, Option.getD_some,
        List.append_assoc]

/-- **The calls of `Distribute`**: message by message, those of its type in the order of their
list. -/
theorem calls_distribute (listeners : Listeners κ) (inbox : List Message) :
    (distribute listeners inbox).calls = inbox.flatMap fun m =>
      (listenersOf listeners m.getType.bytes).map fun f => (f, m) := by
  rw [distribute, distributeLoop_eq, List.nil_append]

theorem mem_calls_distribute {listeners : Listeners κ} {inbox : List Message} {f : κ}
    {m : Message} : (f, m) ∈ (distribute listeners inbox).calls ↔
      m ∈ inbox ∧ f ∈ listenersOf listeners m.getType.bytes := by
  rw [calls_distribute, List.mem_flatMap]
  constructor
  · rintro ⟨x, hx, hf⟩
    obtain ⟨g, hg, he⟩ := List.mem_map.mp hf
    cases he
    exact ⟨hx, hg⟩
  · rintro ⟨hm, hf⟩
    exact ⟨m, hm, List.mem_map_of_mem hf⟩

/-- The listener is registered under the name, and under no other. -/
def Registered (listeners : Listeners κ) (name : Bytes) (f : κ) : Prop :=
  ∀ k, f ∈ listenersOf listeners k ↔ k = name

/-- **What `AddListener` does**: the first listener of a name gets a list of its own. -/
theorem addListener_eq_some {listeners : Listeners κ} {name : Bytes} {f : κ}
    {r : ℕ × Listeners κ} (h : addListener listeners name f = some r) :
    listeners.lookup name = none ∧ r = (1, listeners.insert name [f]) := by
  unfold addListener at h
  split_ifs at h with hn
  · exact ⟨hn, (Option.some.inj h).symm⟩
  · cases h

theorem addListener_of_lookup_eq_none {listeners : Listeners κ} {name : Bytes}
    (h : listeners.lookup name = none) (f : κ) :
    addListener listeners name f = some (1, listeners.insert name [f]) := by
  rw [addListener, if_pos h]
  rfl

theorem removeListeners_fst (listeners : Listeners κ) (name : Bytes) :
    (removeListeners listeners name).1 = (listeners.lookup name).isSome := by
  unfold removeListeners
  split_ifs with h
  · rw [h]; rfl
  · exact (Option.isSome_iff_ne_none.mpr h).symm

theorem lookup_removeListeners (listeners : Listeners κ) (name k : Bytes) :
    (removeListeners listeners name).2.lookup k =
      if k = name then none else listeners.lookup k := by
  unfold removeListeners
  split_ifs with h hk hk
  · rw [hk, h]
  · rfl
  · rw [hk, AList.lookup_erase]
  · rw [AList.lookup_erase_ne hk]

@[simp] theorem lookup_clearListeners (listeners : Listeners κ) (k : Bytes) :
    (clearListeners listeners).lookup k = none := AList.lookup_empty k

theorem listenersOf_addListener {listeners : Listeners κ} {name : Bytes} {f : κ}
    {r : ℕ × Listeners κ} (h : addListener listeners name f = some r) (k : Bytes) :
    listenersOf r.2 k = if k = name then [f] else listenersOf listeners k := by
  rw [(addListener_eq_some h).2, listenersOf]
  split_ifs with hk
  · rw [hk, AList.lookup_insert, Option.getD_some]
  · rw [AList.lookup_insert_ne hk, listenersOf]

/-- **A new listener** is registered under its name. -/
theorem registered_addListener {listeners : Listeners κ} {name : Bytes} {f : κ}
    {r : ℕ × Listeners κ} (h : addListener listeners name f = some r)
    (hf : ∀ k, f ∉ listenersOf listeners k) : Registered r.2 name f := by
  intro k
  rw [listenersOf_addListener h]
  split_ifs with hk
  · simp [hk]
  · simp [hk, hf k]

/-- Another `AddListener` does not touch the registered one. -/
theorem Registered.addListener {listeners : Listeners κ} {name name' : Bytes} {f g : κ}
    {r : ℕ × Listeners κ} (h : Registered listeners name f)
    (hr : Petunia.addListener listeners name' g = some r) (hg : g ≠ f) :
    Registered r.2 name f := by
  intro k
  rw [listenersOf_addListener hr]
  split_ifs with hk
  · -- the name had no list, so it is not that of `f`
    have hn : listenersOf listeners name' = [] := by
      rw [listenersOf, (addListener_eq_some hr).1, Option.getD_none]
    have hne : name' ≠ name := fun e => by simpa [hn] using (h name').mpr e
    simp [hk, hne, hg.symm]
  · exact h k

end Petunia
