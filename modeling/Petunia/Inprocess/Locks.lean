import Petunia.Inprocess.World
import Petunia.Lib.LockOrder

set_option autoImplicit false

/-!
# The threads of one process and their mutexes

The endpoints of `World` with the send and the receive thread that each of them starts, and any
number of user threads, which construct endpoints with explicit roles and call `SendMessage` and
`UpdateMessage`, as listeners do. A step takes one mutex, leaves one, or works between the two.

* `Lock`, `Thread`, `Call`;
* `CallPc`, `SendPc`, `ReceivePc`, `UserPc`: the program counters, named after the next step;
* `Process`, `Process.step`: the threads under any interleaving;
* `Process.holds`, `Process.wants`: what a thread has locked and what it locks next.
-/

namespace Petunia.Inprocess

open CTypes

/-- The mutexes: `m_send_lock` and `m_receive_lock` of every endpoint, and the locks of the two
static maps. -/
inductive Lock
  | send (i : ℕ)
  | receive (i : ℕ)
  | channel (d : Direction)
  deriving DecidableEq

/-- The send and the receive thread of every endpoint, and the others. -/
inductive Thread
  | send (i : ℕ)
  | receive (i : ℕ)
  | user (n : ℕ)
  deriving DecidableEq

/-- A call that a user thread or a listener makes on an endpoint. -/
inductive Call
  | sendMessage (i : ℕ) (message : Message)
  | updateMessage (i : ℕ) (message : Message)

/-- The endpoint on which the call is made. -/
def Call.target : Call → ℕ
  | .sendMessage i _ => i
  | .updateMessage i _ => i

/-- What `SendMessage` is called with; `UpdateMessage` sets the flag first. -/
def Call.message : Call → Message
  | .sendMessage _ m => m
  | .updateMessage _ m => m.setOverwriteMode true

/-! ## Program counters -/

/-- The next step of `SendMessage`. -/
inductive CallPc
  | acquire
  | push
  | notify
  | release

/-- The next step of `SendThreadLoop`, with `SendMessages` of the medium. -/
inductive SendPc
  | acquire
  | evalPredicate
  /-- The predicate was false: release the lock and block, in one step. -/
  | block
  | blocked
  | acquireChannel
  | sendMessages (d : Direction)
  | releaseChannel (d : Direction)
  | release
  deriving DecidableEq

/-- The next step of `ReceiveThreadLoop`, with `ReceiveMessages` of the medium and `Distribute`. -/
inductive ReceivePc
  | acquire
  | acquireChannel
  | receiveMessages (d : Direction)
  | releaseChannel (d : Direction) (received : Bool)
  | distribute
  /-- Inside the listeners. -/
  | listening
  | calling (c : Call) (pc : CallPc)
  | release

/-- The next step of `EnsureToServerChannelExists` or `EnsureToClientChannelExists`. -/
inductive EnsurePc
  | acquire
  | insert
  | release

/-- The next step of a user thread. -/
inductive UserPc
  | idle
  | calling (c : Call) (pc : CallPc)
  | ensuring (channel : Bytes) (role : ConnectionRole) (d : Direction) (pc : EnsurePc)
  | startMQThread (channel : Bytes) (role : ConnectionRole)

/-- The program counter of a thread. -/
@[reducible] def Thread.Pc : Thread → Type
  | .send _ => SendPc
  | .receive _ => ReceivePc
  | .user _ => UserPc

/-- The state of `World`, the owners of the mutexes and the program counters; the threads of an
endpoint take their first step when the endpoint has been constructed. -/
structure Process where
  world : World Message
  owner : Lock → Option Thread
  pc : ∀ t : Thread, t.Pc

/-- The steps. -/
inductive ProcessAct
  | send (i : ℕ)
  /-- The receive thread; `call` is what a listener does next, `none` if the listeners return. -/
  | receive (i : ℕ) (call : Option Call)
  | call (n : ℕ) (c : Call)
  | construct (n : ℕ) (channel : Bytes) (role : ConnectionRole)
  | user (n : ℕ)

/-- The thread that takes the step. -/
def ProcessAct.thread : ProcessAct → Thread
  | .send i => .send i
  | .receive i _ => .receive i
  | .call n _ => .user n
  | .construct n _ _ => .user n
  | .user n => .user n

/-! ## The steps of the threads -/

namespace Process

/-- No endpoint has been constructed. -/
def init : Process where
  world := .init
  owner _ := none
  pc
    | .send _ => SendPc.acquire
    | .receive _ => ReceivePc.acquire
    | .user _ => UserPc.idle

/-- The thread goes on to `pc`. -/
def goto (s : Process) (t : Thread) (pc : t.Pc) : Process :=
  { s with pc := Function.update s.pc t pc }

/-- The thread locks the mutex, which must be free, and goes on to `pc`. -/
def lock (s : Process) (l : Lock) (t : Thread) (pc : t.Pc) : Option Process :=
  if s.owner l = none then
    some ({ s with owner := Function.update s.owner l (some t) }.goto t pc)
  else none

/-- The thread unlocks the mutex and goes on to `pc`. -/
def unlock (s : Process) (l : Lock) (t : Thread) (pc : t.Pc) : Process :=
  { s with owner := Function.update s.owner l none }.goto t pc

/-- `notify_all`: a blocked send thread will reacquire the lock. -/
def notifyAll (s : Process) (i : ℕ) : Process :=
  if (s.pc (.send i) : SendPc) = .blocked then s.goto (.send i) SendPc.acquire else s

/-- One step of `SendMessage`; `next` is where the thread is inside the call or after it. -/
def callStep (s : Process) (t : Thread) (c : Call) (next : Option CallPc → t.Pc) :
    CallPc → Option Process
  | .acquire => s.lock (.send c.target) t (next (some .push))
  | .push => (s.world.sendMessage c.target c.message).map fun world =>
      { s with world }.goto t (next (some .notify))
  | .notify => some ((s.notifyAll c.target).goto t (next (some .release)))
  | .release => some (s.unlock (.send c.target) t (next none))

/-- One step of `SendThreadLoop` of endpoint `i`. -/
def sendStep (s : Process) (i : ℕ) : Option Process :=
  let t : Thread := .send i
  s.world.endpoints[i]?.bind fun e =>
    match (s.pc t : SendPc) with
    | .acquire => s.lock (.send i) t SendPc.evalPredicate
    | .evalPredicate =>
      some (s.goto t (if e.outbox ≠ [] then SendPc.acquireChannel else SendPc.block))
    | .block => some (s.unlock (.send i) t SendPc.blocked)
    -- a wake-up without a notification
    | .blocked => some (s.goto t SendPc.acquire)
    | .acquireChannel => s.lock (.channel e.sends) t (SendPc.sendMessages e.sends)
    | .sendMessages d => (s.world.sendMessages i).map fun r =>
        { s with world := r.2 }.goto t (SendPc.releaseChannel d)
    | .releaseChannel d => some (s.unlock (.channel d) t SendPc.release)
    | .release => some (s.unlock (.send i) t SendPc.acquire)

/-- One step of `ReceiveThreadLoop` of endpoint `i`. -/
def receiveStep (s : Process) (i : ℕ) (call : Option Call) : Option Process :=
  let t : Thread := .receive i
  s.world.endpoints[i]?.bind fun e =>
    match (s.pc t : ReceivePc) with
    | .acquire => s.lock (.receive i) t ReceivePc.acquireChannel
    | .acquireChannel => s.lock (.channel e.receives) t (ReceivePc.receiveMessages e.receives)
    | .receiveMessages d => (s.world.receiveMessages i).map fun r =>
        { s with world := r.2 }.goto t (ReceivePc.releaseChannel d r.1)
    | .releaseChannel d received => some
        (s.unlock (.channel d) t (if received then ReceivePc.distribute else ReceivePc.release))
    | .distribute =>
      match e.inbox with
      | [] => some (s.goto t ReceivePc.release)
      | m :: inbox =>
        let e' := { e with inbox, dispatched := e.dispatched ++ [m] }
        some ({ s with world.endpoints := s.world.endpoints.set i e' }.goto t ReceivePc.listening)
    | .listening =>
      match call with
      | none => some (s.goto t ReceivePc.distribute)
      | some c =>
        if c.target < s.world.endpoints.length then some (s.goto t (ReceivePc.calling c .acquire))
        else none
    | .calling c pc => s.callStep t c (fun
        | some pc => ReceivePc.calling c pc
        | none => ReceivePc.listening) pc
    | .release => some (s.unlock (.receive i) t ReceivePc.acquire)

/-- The map of a direction with the channel in it. -/
def ensure (s : Process) (channel : Bytes) (d : Direction) : Process :=
  { s with world.maps := s.world.maps.set (ensureChannelExists channel (s.world.maps.get d)) d }

/-- One step of a user thread that is constructing an endpoint or inside a call. -/
def userStep (s : Process) (n : ℕ) : Option Process :=
  match (s.pc (.user n) : UserPc) with
  | .idle => none
  | .calling c pc => s.callStep (.user n) c (fun
      | some pc => UserPc.calling c pc
      | none => UserPc.idle) pc
  | .ensuring channel role d .acquire =>
    s.lock (.channel d) (.user n) (UserPc.ensuring channel role d .insert)
  | .ensuring channel role d .insert =>
    some ((s.ensure channel d).goto (.user n) (UserPc.ensuring channel role d .release))
  | .ensuring channel role d .release => some (s.unlock (.channel d) (.user n) (match d with
      | .toServer => UserPc.ensuring channel role .toClient .acquire
      | .toClient => UserPc.startMQThread channel role))
  | .startMQThread channel role =>
    some ({ s with world := s.world.construct channel role }.goto (.user n) UserPc.idle)

/-- One step of a thread. -/
def step (s : Process) : ProcessAct → Option Process
  | .send i => s.sendStep i
  | .receive i call => s.receiveStep i call
  | .call n c =>
    match (s.pc (.user n) : UserPc) with
    | .idle =>
      if c.target < s.world.endpoints.length then
        some (s.goto (.user n) (UserPc.calling c .acquire))
      else none
    | _ => none
  | .construct n channel role =>
    match (s.pc (.user n) : UserPc) with
    | .idle =>
      if role = .auto then none
      else some (s.goto (.user n) (UserPc.ensuring channel role .toServer .acquire))
    | _ => none
  | .user n => s.userStep n

end Process

/-! ## What a thread holds and what it wants -/

/-- What `SendMessage` has locked. -/
def CallPc.holds (c : Call) : CallPc → List Lock
  | .acquire => []
  | .push | .notify | .release => [.send c.target]

/-- What the send thread of endpoint `i` has locked. -/
def SendPc.holds (i : ℕ) : SendPc → List Lock
  | .acquire | .blocked => []
  | .evalPredicate | .block | .acquireChannel | .release => [.send i]
  | .sendMessages d | .releaseChannel d => [.channel d, .send i]

/-- What the receive thread of endpoint `i` has locked. -/
def ReceivePc.holds (i : ℕ) : ReceivePc → List Lock
  | .acquire => []
  | .acquireChannel | .distribute | .listening | .release => [.receive i]
  | .receiveMessages d | .releaseChannel d _ => [.channel d, .receive i]
  | .calling c pc => pc.holds c ++ [.receive i]

/-- What the construction of a queue has locked. -/
def EnsurePc.holds (d : Direction) : EnsurePc → List Lock
  | .acquire => []
  | .insert | .release => [.channel d]

/-- What a user thread has locked. -/
def UserPc.holds : UserPc → List Lock
  | .idle | .startMQThread _ _ => []
  | .calling c pc => pc.holds c
  | .ensuring _ _ d pc => pc.holds d

/-- What a thread has locked, by its program counter. -/
def Thread.holds : ∀ t : Thread, t.Pc → List Lock
  | .send i, pc => SendPc.holds i pc
  | .receive i, pc => ReceivePc.holds i pc
  | .user _, pc => UserPc.holds pc

/-- What the next step of `SendMessage` locks. -/
def CallPc.wants (c : Call) : CallPc → Option Lock
  | .acquire => some (.send c.target)
  | .push | .notify | .release => none

/-- What the next step of the send thread of endpoint `i` locks. -/
def SendPc.wants (i : ℕ) (e : Endpoint (Entry Message)) : SendPc → Option Lock
  | .acquire => some (.send i)
  | .acquireChannel => some (.channel e.sends)
  | _ => none

/-- What the next step of the receive thread of endpoint `i` locks. -/
def ReceivePc.wants (i : ℕ) (e : Endpoint (Entry Message)) : ReceivePc → Option Lock
  | .acquire => some (.receive i)
  | .acquireChannel => some (.channel e.receives)
  | .calling c pc => pc.wants c
  | _ => none

/-- What the next step of a user thread locks. -/
def UserPc.wants : UserPc → Option Lock
  | .calling c pc => pc.wants c
  | .ensuring _ _ d .acquire => some (.channel d)
  | _ => none

/-- The mutex that the next step of a thread locks, if it locks one. -/
def Process.wants (s : Process) : Thread → Option Lock
  | .send i => s.world.endpoints[i]?.bind fun e => SendPc.wants i e (s.pc (.send i))
  | .receive i => s.world.endpoints[i]?.bind fun e => ReceivePc.wants i e (s.pc (.receive i))
  | .user n => UserPc.wants (s.pc (.user n))

end Petunia.Inprocess
