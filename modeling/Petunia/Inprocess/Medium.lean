import Petunia.Lib.Queues
import Petunia.Message

set_option autoImplicit false

/-!
# The in-process medium

`IPCMediumInprocess` keeps two maps for the whole process, from channel names to queues. Every
endpoint sends through one map and receives through the other, and both operations `swap` a whole
queue with the shared one.

* `sendMessages`, `receiveMessages`: the two operations, on a queue and a map (`Exchanged`: what
  they have in common);
* `Maps`, `Maps.contents`: the two maps and everything in them;
* `resolveRole`, `ensureChannelExists`: `InitializeRole`.
-/

namespace Petunia.Inprocess

open CTypes Queues

variable {α : Type*}

/-- A queue for every channel name. -/
abbrev Messages (α : Type*) := QueueMap Bytes α

/-! ## The operations of the medium -/

/-- `swap` with the queue that `find` has found; `none` if it found none. -/
def swap (map : Messages α) (channel : Bytes) (queue : List α) : Option (List α × Messages α) :=
  (map.lookup channel).map fun shared => (shared, map.insert channel queue)

/-- `SendMessages`: the result, the outbox and the map. -/
def sendMessages (map : Messages α) (channel : Bytes) (outbox : List α) :
    Option (Bool × List α × Messages α) :=
  if outbox = [] then some (false, outbox, map)
  else (swap map channel outbox).map fun r => (true, r)

/-- `ReceiveMessages`: the result, the inbox and the map. -/
def receiveMessages (map : Messages α) (channel : Bytes) (inbox : List α) :
    Option (Bool × List α × Messages α) :=
  (map.lookup channel).bind fun shared =>
    if shared = [] then some (false, inbox, map)
    else (swap map channel inbox).map fun r => (true, r)

/-- The outcomes that `SendMessages` and `ReceiveMessages` share: nothing, or an exchange. -/
inductive Exchanged (map : Messages α) (channel : Bytes) (queue : List α) :
    List α → Messages α → Prop
  | unchanged : Exchanged map channel queue queue map
  | swapped {shared : List α} (h : map.lookup channel = some shared) :
    Exchanged map channel queue shared (map.insert channel queue)

theorem exchanged_of_swap {map map' : Messages α} {channel : Bytes} {queue queue' : List α}
    (h : swap map channel queue = some (queue', map')) :
    Exchanged map channel queue queue' map' := by
  obtain ⟨shared, hl, hr⟩ := Option.map_eq_some_iff.mp h
  cases hr
  exact .swapped hl

theorem exchanged_of_sendMessages {map map' : Messages α} {channel : Bytes}
    {outbox outbox' : List α} {b : Bool}
    (h : sendMessages map channel outbox = some (b, outbox', map')) :
    Exchanged map channel outbox outbox' map' := by
  unfold sendMessages at h
  split_ifs at h with h0
  · cases h
    exact .unchanged
  · obtain ⟨r, hr, he⟩ := Option.map_eq_some_iff.mp h
    cases he
    exact exchanged_of_swap hr

theorem exchanged_of_receiveMessages {map map' : Messages α} {channel : Bytes}
    {inbox inbox' : List α} {b : Bool}
    (h : receiveMessages map channel inbox = some (b, inbox', map')) :
    Exchanged map channel inbox inbox' map' := by
  obtain ⟨shared, -, h⟩ := Option.bind_eq_some_iff.mp h
  split_ifs at h with h0
  · cases h
    exact .unchanged
  · obtain ⟨r, hr, he⟩ := Option.map_eq_some_iff.mp h
    cases he
    exact exchanged_of_swap hr

/-- An exchange keeps what queue and map hold together. -/
theorem Exchanged.contents {map map' : Messages α} {channel : Bytes} {queue queue' : List α}
    (h : Exchanged map channel queue queue' map') :
    (queue' : Multiset α) + map'.contents = queue + map.contents := by
  cases h with
  | unchanged => rfl
  | swapped hl => rw [add_comm, QueueMap.contents_insert hl, add_comm]

theorem Exchanged.lookup_of_ne {map map' : Messages α} {channel c : Bytes} {queue queue' : List α}
    (h : Exchanged map channel queue queue' map') (hc : c ≠ channel) :
    map'.lookup c = map.lookup c := by
  cases h with
  | unchanged => rfl
  | swapped hl => exact AList.lookup_insert_ne hc

theorem Exchanged.isSome_lookup {map map' : Messages α} {channel : Bytes} {queue queue' : List α}
    (h : Exchanged map channel queue queue' map') {c : Bytes} (hc : (map.lookup c).isSome) :
    (map'.lookup c).isSome := by
  cases h with
  | unchanged => exact hc
  | swapped hl =>
    by_cases he : c = channel
    · subst he; rw [AList.lookup_insert]; rfl
    · rw [AList.lookup_insert_ne he]; exact hc

/-! ## The maps of the process -/

/-- The two static maps, by what they hold. -/
inductive Direction
  | toServer
  | toClient
  deriving DecidableEq

/-- `s_to_server_messages` and `s_to_client_messages`. -/
structure Maps (α : Type*) where
  toServer : Messages α
  toClient : Messages α

namespace Maps

/-- No channel yet. -/
def empty : Maps α := ⟨∅, ∅⟩

/-- The map of a direction. -/
def get (maps : Maps α) : Direction → Messages α
  | .toServer => maps.toServer
  | .toClient => maps.toClient

/-- Write the map of a direction. -/
def set (maps : Maps α) (map : Messages α) : Direction → Maps α
  | .toServer => { maps with toServer := map }
  | .toClient => { maps with toClient := map }

/-- Everything in the shared queues. -/
def contents (maps : Maps α) : Multiset α := maps.toServer.contents + maps.toClient.contents

@[simp] theorem get_set_self (maps : Maps α) (map : Messages α) (d : Direction) :
    (maps.set map d).get d = map := by
  cases d <;> rfl

theorem get_set_of_ne (maps : Maps α) (map : Messages α) {d d' : Direction} (h : d' ≠ d) :
    (maps.set map d).get d' = maps.get d' := by
  cases d <;> cases d' <;> first | rfl | exact absurd rfl h

theorem contents_set (maps : Maps α) (map : Messages α) (d : Direction) :
    (maps.set map d).contents + (maps.get d).contents = maps.contents + map.contents := by
  cases d <;> simp only [contents, set, get] <;> abel

end Maps

/-- The map through which an endpoint of the role sends. -/
def sendMessagesMap (role : ConnectionRole) : Direction :=
  if role = .server then .toClient else .toServer

/-- The map through which an endpoint of the role receives. -/
def receiveMessagesMap (role : ConnectionRole) : Direction :=
  if role = .server then .toServer else .toClient

/-- The other role. -/
def opposite : ConnectionRole → ConnectionRole
  | .server => .client
  | .client => .server
  | .auto => .auto

/-- The role of an endpoint: `Auto` becomes `Server` on a new channel, else `Client`. -/
def resolveRole (maps : Maps α) (channel : Bytes) : ConnectionRole → ConnectionRole
  | .auto => if maps.toServer.lookup channel = none then .server else .client
  | .server => .server
  | .client => .client

theorem resolveRole_ne_auto (maps : Maps α) (channel : Bytes) (role : ConnectionRole) :
    resolveRole maps channel role ≠ .auto := by
  cases role with
  | auto => simp only [resolveRole]; split_ifs <;> simp
  | server => simp [resolveRole]
  | client => simp [resolveRole]

/-- `EnsureToServerChannelExists` and `EnsureToClientChannelExists`. -/
def ensureChannelExists (channel : Bytes) (map : Messages α) : Messages α :=
  if map.lookup channel = none then map.insert channel [] else map

theorem contents_ensureChannelExists (channel : Bytes) (map : Messages α) :
    (ensureChannelExists channel map).contents = map.contents := by
  unfold ensureChannelExists
  split_ifs with h
  · exact QueueMap.contents_insert_nil h
  · rfl

theorem isSome_lookup_ensureChannelExists (channel : Bytes) (map : Messages α) :
    ((ensureChannelExists channel map).lookup channel).isSome := by
  unfold ensureChannelExists
  split_ifs with h
  · rw [AList.lookup_insert]; rfl
  · exact Option.isSome_iff_ne_none.mpr h

/-- A new channel is empty, and the others stay. -/
theorem lookup_ensureChannelExists {channel c : Bytes} {map : Messages α} {q : List α}
    (h : (ensureChannelExists channel map).lookup c = some q) :
    map.lookup c = some q ∨ (q = [] ∧ c = channel) := by
  unfold ensureChannelExists at h
  split_ifs at h with hn
  · by_cases he : c = channel
    · subst he
      rw [AList.lookup_insert] at h
      exact .inr ⟨(Option.some.inj h).symm, rfl⟩
    · rw [AList.lookup_insert_ne he] at h
      exact .inl h
  · exact .inl h

theorem lookup_ensureChannelExists_of_ne {channel c : Bytes} {map : Messages α} (h : c ≠ channel) :
    (ensureChannelExists channel map).lookup c = map.lookup c := by
  unfold ensureChannelExists
  split_ifs
  · exact AList.lookup_insert_ne h
  · rfl

theorem lookup_ensureChannelExists_of_isSome {channel c : Bytes} {map : Messages α}
    (h : (map.lookup c).isSome) : (ensureChannelExists channel map).lookup c = map.lookup c := by
  unfold ensureChannelExists
  split_ifs with hn
  · refine AList.lookup_insert_ne ?_
    rintro rfl
    rw [hn] at h
    exact Bool.noConfusion h
  · rfl

end Petunia.Inprocess
