import Petunia.Lib.Run
import Mathlib.Logic.Function.Basic

set_option autoImplicit false

/-!
# Two connected endpoints with their threads

Both endpoints run a send thread and a receive thread over the nanomsg medium. `send` blocks while
the buffer of its direction holds `cap` frames. The send thread keeps `m_send_lock` while it is in
`SendMessages`. Listeners run in the receive thread and may call `SendMessage` on their own
endpoint, which waits for that lock.

A push with its `notify_all` is one step under the lock; so are testing the predicate and blocking.

* `Endpoint`, `State`: queues, lock, threads and the outgoing buffer of each side;
* `Act`, `step`: one step of a user, a send thread or a receive thread; `replies x k m` is what the
  listeners of side `x` send when they get `m` and find `k` in the state they have captured;
* `Deadlocked`: both send threads wait for room with the lock held, and both receive threads wait
  for the lock inside a listener.
-/

namespace Petunia.Nanomsg

variable {κ μ : Type*}

/-- The two endpoints. -/
inductive Side
  | left
  | right
  deriving DecidableEq

/-- The peer. -/
def Side.peer : Side → Side
  | .left => .right
  | .right => .left

/-- The frames of a message. -/
inductive Part (μ : Type*)
  | type (message : μ)
  | data (message : μ)

/-- The send thread; it holds `m_send_lock` in the two `send`s. -/
inductive SendThread
  /-- At the top of the loop, before `m_send_lock`. -/
  | acquire
  /-- In the condition wait. -/
  | waiting
  | sendType
  | sendData
  deriving DecidableEq

/-- The receive thread. -/
inductive ReceiveThread (μ : Type*)
  | recvType (received : Bool)
  | recvData (message : μ) (received : Bool)
  | distribute
  /-- In the listeners of a message, which have still to send these. -/
  | listener (replies : List μ)

/-- One endpoint; `buffer` holds the frames it has sent and the peer has not received. -/
structure Endpoint (μ : Type*) where
  outbox : List μ
  /-- The send thread holds `m_send_lock`. -/
  locked : Bool
  send : SendThread
  receive : ReceiveThread μ
  inbox : List μ
  buffer : List (Part μ)

/-- Both endpoints. -/
abbrev State (μ : Type*) := Side → Endpoint μ

/-- The steps; `captured` is the state that the listeners of a dispatched message find. -/
inductive Act (κ μ : Type*)
  | sendMessage (x : Side) (message : μ)
  | send (x : Side)
  | receive (x : Side) (captured : κ)

namespace Endpoint

/-- A fresh endpoint. -/
def init : Endpoint μ := ⟨[], false, .acquire, .recvType false, [], []⟩

/-- `SendMessage`: push and `notify_all`, once the lock is free. -/
def sendMessage (e : Endpoint μ) (message : μ) : Option (Endpoint μ) :=
  if e.locked then none
  else some { e with
    outbox := e.outbox ++ [message]
    send := if e.send = .waiting then .acquire else e.send }

/-- The send thread. -/
def sendStep (cap : ℕ) (e : Endpoint μ) : Option (Endpoint μ) :=
  match e.send, e.outbox with
  | .acquire, [] => if e.locked then none else some { e with send := .waiting }
  | .acquire, _ :: _ => if e.locked then none else some { e with locked := true, send := .sendType }
  | .sendType, m :: _ =>
    if e.buffer.length < cap then some { e with buffer := e.buffer ++ [.type m], send := .sendData }
    else none
  | .sendData, m :: outbox =>
    if e.buffer.length < cap then
      if outbox = [] then some { e with
        outbox
        locked := false
        send := .acquire
        buffer := e.buffer ++ [.data m] }
      else some { e with outbox, send := .sendType, buffer := e.buffer ++ [.data m] }
    else none
  | _, _ => none

/-- The receive thread: the endpoint and the buffer of its peer. -/
def receiveStep (replies : μ → List μ) (e : Endpoint μ) (buffer : List (Part μ)) :
    Option (Endpoint μ × List (Part μ)) :=
  match e.receive, buffer with
  | .recvType received, [] =>
    some ({ e with receive := if received then .distribute else .recvType false }, [])
  | .recvType received, .type m :: buffer =>
    some ({ e with receive := .recvData m received }, buffer)
  | .recvData _ _, .data m :: buffer =>
    some ({ e with inbox := e.inbox ++ [m], receive := .recvType true }, buffer)
  | .distribute, buffer =>
    match e.inbox with
    | [] => some ({ e with receive := .recvType false }, buffer)
    | m :: inbox => some ({ e with inbox, receive := .listener (replies m) }, buffer)
  | .listener [], buffer => some ({ e with receive := .distribute }, buffer)
  | .listener (m :: rest), buffer =>
    (e.sendMessage m).map fun e' => ({ e' with receive := .listener rest }, buffer)
  | _, _ => none

end Endpoint

/-- Both endpoints connected, nothing sent. -/
def init : State μ := fun _ => .init

/-- One step. -/
def step (cap : ℕ) (replies : Side → κ → μ → List μ) (s : State μ) : Act κ μ → Option (State μ)
  | .sendMessage x m => ((s x).sendMessage m).map (Function.update s x)
  | .send x => ((s x).sendStep cap).map (Function.update s x)
  | .receive x captured =>
    ((s x).receiveStep (replies x captured) (s x.peer).buffer).map fun r =>
      Function.update (Function.update s x.peer { s x.peer with buffer := r.2 }) x r.1

/-- The send thread waits for room with the lock held, the receive thread for the lock inside a
listener. -/
def Endpoint.Stuck (cap : ℕ) (e : Endpoint μ) : Prop :=
  e.locked = true ∧ (e.send = .sendType ∨ e.send = .sendData) ∧ cap ≤ e.buffer.length ∧
    ∃ m rest, e.receive = .listener (m :: rest)

/-- The wait cycle through both endpoints. -/
def Deadlocked (cap : ℕ) (s : State μ) : Prop := ∀ x, (s x).Stuck cap

end Petunia.Nanomsg
