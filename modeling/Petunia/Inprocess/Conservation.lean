import Petunia.Inprocess.World

set_option autoImplicit false

/-!
# Conservation in the in-process medium

Both operations of the medium exchange queues, so a message can move back from a shared queue to an
outbox, even to another endpoint's, or from an inbox to the shared queue. None is lost or copied.

* `World.contents`: outboxes, shared queues, inboxes and dispatched messages together;
* `World.Conserves`, `conserves_step`: they are what was pushed;
* **`conserved`**: this holds after every run, so every pushed entry is in exactly one place and is
  dispatched at most once.
-/

namespace Petunia.Inprocess

open CTypes Lts Queues

variable {μ : Type*}

namespace World

/-- Everything in the outboxes, the shared queues and the inboxes, and everything dispatched. -/
def contents (w : World μ) : Multiset (Entry μ) :=
  (w.endpoints.map Endpoint.contents).sum + w.maps.contents

/-- Everything dispatched at the endpoints. -/
def dispatched (w : World μ) : Multiset (Entry μ) :=
  (w.endpoints.map fun e => (e.dispatched : Multiset (Entry μ))).sum

/-- The pushed messages, numbered in the order of the pushes, are those found somewhere. -/
structure Conserves (w : World μ) : Prop where
  contents : w.contents = w.pushed
  serials : w.pushed.map Entry.serial = List.range w.pushed.length

theorem conserves_init : Conserves (init : World μ) := ⟨rfl, rfl⟩

/-- A call of one endpoint replaces the endpoint, and its contents change by what it pushes. -/
theorem contents_set {w : World μ} {i : ℕ} {e e' : Endpoint (Entry μ)} {maps : Maps (Entry μ)}
    {pushed : List (Entry μ)} (new : Multiset (Entry μ)) (he : w.endpoints[i]? = some e)
    (h : e'.contents + maps.contents = e.contents + w.maps.contents + new) :
    contents ⟨maps, w.endpoints.set i e', pushed⟩ = w.contents + new := by
  have hsum := sum_map_set Endpoint.contents he e'
  refine add_right_cancel (b := e.contents) ?_
  calc ((w.endpoints.set i e').map Endpoint.contents).sum + maps.contents + e.contents
      = ((w.endpoints.set i e').map Endpoint.contents).sum + e.contents + maps.contents := by abel
    _ = (w.endpoints.map Endpoint.contents).sum + (e'.contents + maps.contents) := by
      rw [hsum]; abel
    _ = w.contents + new + e.contents := by rw [h, contents]; abel

/-- Exchanging a queue of an endpoint keeps what endpoint and maps hold together. -/
theorem contents_exchange {maps : Maps (Entry μ)} {d : Direction} {channel : Bytes}
    {queue queue' : List (Entry μ)} {map : Messages (Entry μ)}
    (hx : Exchanged (maps.get d) channel queue queue' map) (rest : Multiset (Entry μ)) :
    (queue' + rest) + (maps.set map d).contents = (queue + rest) + maps.contents := by
  have hq : (queue' + rest : Multiset (Entry μ)) + queue = (queue + rest) + queue' := by abel
  exact add_eq_of_exchange hq (maps.contents_set map d) hx.contents

theorem contents_construct (w : World μ) (channel : Bytes) (role : ConnectionRole) :
    (w.construct channel role).contents = w.contents := by
  simp only [contents, construct, List.map_append, List.sum_append, List.map_singleton,
    List.sum_singleton, Endpoint.contents, Maps.contents, contents_ensureChannelExists,
    Multiset.coe_nil, add_zero]

/-- **One call keeps every message**, and a push adds its own. -/
theorem conserves_step {w w' : World μ} {a : Act μ} (hw : w.Conserves) (h : w.step a = some w') :
    w'.Conserves := by
  obtain ⟨hc, hs⟩ := hw
  cases step_effect h with
  | construct channel role => exact ⟨(contents_construct w channel role).trans hc, hs⟩
  | @sendMessage i e he message =>
    constructor
    · rw [contents_set {⟨i, w.pushed.length, message⟩} he, hc]
      · rfl
      · simp only [Endpoint.contents, ← Multiset.coe_add, Multiset.coe_singleton]
        abel
    · rw [List.map_append, List.length_append, hs, List.length_singleton, List.range_succ]
      rfl
  | @sendMessages i e he outbox map hx =>
    refine ⟨?_, hs⟩
    rw [← hc, ← add_zero w.contents]
    refine contents_set 0 he ?_
    simp only [Endpoint.contents, add_assoc, add_zero]
    simpa only [add_assoc] using contents_exchange hx (e.inbox + e.dispatched)
  | @receiveMessages i e he inbox map hx =>
    refine ⟨?_, hs⟩
    rw [← hc, ← add_zero w.contents]
    refine contents_set 0 he ?_
    have := contents_exchange hx (e.outbox + e.dispatched)
    simp only [Endpoint.contents, add_zero]
    rw [add_comm (e.outbox : Multiset (Entry μ)), add_comm (e.outbox : Multiset (Entry μ)),
      add_assoc (inbox : Multiset (Entry μ)), add_assoc (e.inbox : Multiset (Entry μ))]
    exact this
  | @distribute i e he =>
    refine ⟨?_, hs⟩
    rw [← hc, ← add_zero w.contents]
    refine contents_set 0 he ?_
    simp only [Endpoint.contents, ← Multiset.coe_add, Multiset.coe_nil]
    abel

/-- The numbers of the pushes tell the pushed messages apart. -/
theorem Conserves.nodup {w : World μ} (h : w.Conserves) : w.contents.Nodup := by
  rw [h.contents, Multiset.coe_nodup]
  refine List.Nodup.of_map Entry.serial ?_
  rw [h.serials]
  exact List.nodup_range

theorem dispatched_le_contents (w : World μ) : w.dispatched ≤ w.contents := by
  refine le_trans ?_ (Multiset.le_add_right _ _)
  unfold dispatched
  induction w.endpoints with
  | nil => rfl
  | cons e l ih =>
    rw [List.map_cons, List.map_cons, List.sum_cons, List.sum_cons]
    exact add_le_add (Multiset.le_add_left _ _) ih

/-- **Nothing is lost or duplicated.** After every run, with any number of endpoints in any roles on
any channels, the outboxes, shared queues, inboxes and dispatched messages together are the messages
pushed; each of these is in exactly one place and has been dispatched at most once. -/
theorem conserved [DecidableEq μ] {w : World μ} {as : List (Act μ)}
    (h : exec step init as = some w) :
    w.contents = w.pushed ∧ (∀ m ∈ w.pushed, w.contents.count m = 1) ∧
      ∀ m, w.dispatched.count m ≤ 1 := by
  have hw : w.Conserves := exec_invariant (fun _ _ _ => conserves_step) h conserves_init
  refine ⟨hw.contents, fun m hm => ?_, fun m => ?_⟩
  · refine Multiset.count_eq_one_of_mem hw.nodup ?_
    rw [hw.contents]
    exact hm
  · exact (Multiset.count_le_of_le m (dispatched_le_contents w)).trans
      (Multiset.nodup_iff_count_le_one.mp hw.nodup m)

/-- A message pushed by a server and dispatched at a client of its channel. -/
theorem conserved_pair :
    let w : World ℕ := ⟨⟨.singleton [99] [], .singleton [99] []⟩,
      [⟨[99], .server, by decide, [], [], []⟩, ⟨[99], .client, by decide, [], [], [⟨0, 0, 5⟩]⟩],
      [⟨0, 0, 5⟩]⟩
    w.contents = w.pushed ∧ (∀ m ∈ w.pushed, w.contents.count m = 1) ∧
      ∀ m, w.dispatched.count m ≤ 1 :=
  conserved (show exec step init [.construct [99] .auto, .construct [99] .auto, .sendMessage 0 5,
    .sendMessages 0, .receiveMessages 1, .distribute 1] = some _ from rfl)

end World

end Petunia.Inprocess
