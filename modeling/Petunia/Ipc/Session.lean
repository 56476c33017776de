import Petunia.Ipc.Usock
import Petunia.Ipc.Wire
import Petunia.Lib.Run

set_option autoImplicit false

/-!
# A connection between two sockets

Each end of a connection first exchanges a protocol header with its peer (`streamhdr.c`), then joins
the pipe to its socket (`pipe.c`, `excl.c`) and sends and receives messages (`sipc.c`, `usock`). All
of it runs under the lock of the socket: an event raised inside is queued and handled before the
lock is released.

A failed `nn_assert` aborts the process: the functions below return `none` for it.

* `protohdr`, `accepts`: the protocol header and its check;
* `End`: one end, from the socket's `outpipe` and `inpipe` down to the bytes in the kernel;
* `End.handle`, `End.act`: what an event does, and what starts from outside;
* `Ending`, `End.fail`: what ends a session from outside;
* `Conn`, `Conn.step`: two ends and the bytes between them.
-/

namespace Petunia.Ipc

open CTypes Lts

/-- `nn_socktype`: the protocol of a socket, and which peers it accepts. -/
structure Socktype where
  protocol : UInt16
  ispeer : UInt16 → Bool

/-- `nn_xpair_socktype`; the protocol is `NN_PAIR`. -/
def xpair : Socktype := ⟨16, (· == 16)⟩

/-- The protocol header of a socket. -/
def protohdr (protocol : UInt16) : Bytes := [0, 83, 80, 0] ++ puts protocol ++ [0, 0]

/-- `nn_sock_ispeer`. -/
def sockIspeer (self : Socktype) (socktype : UInt16) : Bool :=
  self.protocol &&& 0xfff0 == socktype &&& 0xfff0 && self.ispeer socktype

/-- The check of the peer's protocol header. -/
def accepts (self : Socktype) (buf : Bytes) : Bool :=
  buf.take 4 == [0, 83, 80, 0] && sockIspeer self (gets (buf.drop 4))

/-- The events that are queued: `NN_USOCK_SENT`, `NN_USOCK_RECEIVED`, `NN_PIPE_OUT`, `NN_PIPE_IN`. -/
inductive Event
  | sent
  | received
  | pipeOut
  | pipeIn
  deriving DecidableEq

/-- The state of the header exchange and, after it, of the session. -/
inductive State
  | sending
  | receiving
  | stopping
  | active
  | done
  deriving DecidableEq

/-- `outstate` of the pipe. -/
inductive PipeOut
  | deactivated
  | idle
  | sending
  | sent
  | async
  deriving DecidableEq

/-- `instate` of the pipe. -/
inductive PipeIn
  | deactivated
  | idle
  | receiving
  | received
  | async
  deriving DecidableEq

/-- `outstate` of the session; `unset` is its initial `-1`. -/
inductive SipcOut
  | unset
  | idle
  | sending
  deriving DecidableEq

/-- `instate` of the session. -/
inductive SipcIn
  | unset
  | hdr
  | body
  | hasmsg
  deriving DecidableEq

/-- One end of a connection. -/
structure End where
  socktype : Socktype
  /-- `NN_RCVMAXSIZE` -/
  rcvmaxsize : ℤ
  state : State
  /-- The events raised and not handled yet. -/
  events : List Event
  outpipe : Bool
  inpipe : Bool
  pipeOut : PipeOut
  pipeIn : PipeIn
  sipcOut : SipcOut
  sipcIn : SipcIn
  /-- The buffers that `sendmsg` has still to take. -/
  hdr : List Bytes
  u : In
  /-- The buffer being filled: the protocol header, `inhdr` or the body of `inmsg`. -/
  buf : Bytes
  /-- How many bytes it lacks. -/
  want : ℕ
  /-- Bytes that the kernel has taken and not transferred, and those that have arrived. -/
  outgoing : Bytes
  incoming : Bytes
  /-- The bytes of all earlier buffers. -/
  read : Bytes
  /-- What the socket has sent and what it has handed out. -/
  sent : List Payload
  taken : List Bytes

namespace End

/-- `nn_fsm_raise`. -/
def raise (e : End) (event : Event) : End := { e with events := e.events ++ [event] }

/-! ## The socket of the operating system -/

/-- `nn_usock_send_raw`, of which `sendmsg` takes `n` bytes or all there are. -/
def usockSendRaw (e : End) (n : ℕ) : Option End :=
  let nbytes := min n e.hdr.flatten.length
  let outgoing := e.outgoing ++ e.hdr.flatten.take nbytes
  match sendRaw e.hdr nbytes with
  | .sent => some ({ e with outgoing, hdr := [] }.raise .sent)
  | .again hdr => some { e with outgoing, hdr }
  | .abort => none

/-- `nn_usock_send`. -/
def usockSend (e : End) (bufs : List Bytes) (n : ℕ) : Option End :=
  { e with hdr := iovecs bufs }.usockSendRaw n

/-- `nn_usock_recv_raw` for what the buffer lacks; `recvmsg` returns at most `n` bytes. -/
def usockRecvRaw (e : End) (n : ℕ) : End :=
  let r := recvRaw e.u e.want e.incoming n
  let e' := { e with
    u := r.u, incoming := r.line, buf := e.buf ++ r.copied, want := e.want - r.copied.length }
  if e'.want = 0 then e'.raise .received else e'

/-- `nn_usock_recv`. -/
def usockRecv (e : End) (len n : ℕ) : End :=
  { e with read := e.read ++ e.buf, buf := [], want := len }.usockRecvRaw n

/-! ## The pipe -/

/-- `nn_pipebase_sent`. -/
def pipebaseSent (e : End) : Option End :=
  match e.pipeOut with
  | .sending => some { e with pipeOut := .sent }
  | .async => some ({ e with pipeOut := .idle }.raise .pipeOut)
  | _ => none

/-- `nn_pipebase_received`. -/
def pipebaseReceived (e : End) : Option End :=
  match e.pipeIn with
  | .receiving => some { e with pipeIn := .received }
  | .async => some ({ e with pipeIn := .idle }.raise .pipeIn)
  | _ => none

/-- `nn_sipc_send`. -/
def sipcSend (e : End) (sphdr body : Bytes) (n : ℕ) : Option End :=
  if e.state = .active ∧ e.sipcOut = .idle then
    { e with sipcOut := .sending }.usockSend [outhdr (sphdr.length + body.length), sphdr, body] n
  else none

/-- `nn_pipe_send`; the second component is `NN_PIPEBASE_RELEASE`. -/
def pipeSend (e : End) (sphdr body : Bytes) (n : ℕ) : Option (End × Bool) :=
  if e.pipeOut = .idle then
    ({ e with pipeOut := .sending }.sipcSend sphdr body n).bind fun e =>
      match e.pipeOut with
      | .sent => some ({ e with pipeOut := .idle }, false)
      | .sending => some ({ e with pipeOut := .async }, true)
      | _ => none
  else none

/-- `nn_excl_send` with an `outpipe`. -/
def exclSend (e : End) (sphdr body : Bytes) (n : ℕ) : Option End :=
  (e.pipeSend sphdr body n).map fun r => if r.2 then { r.1 with outpipe := false } else r.1

/-- `nn_sipc_recv`, which hands out the message that `buf` holds. -/
def sipcRecv (e : End) (n : ℕ) : Option End :=
  if e.state = .active ∧ e.sipcIn = .hasmsg then
    some ({ e with taken := e.taken ++ [e.buf], sipcIn := .hdr }.usockRecv 9 n)
  else none

/-- `nn_pipe_recv`. -/
def pipeRecv (e : End) (n : ℕ) : Option (End × Bool) :=
  if e.pipeIn = .idle then
    ({ e with pipeIn := .receiving }.sipcRecv n).bind fun e =>
      match e.pipeIn with
      | .received => some ({ e with pipeIn := .idle }, false)
      | .receiving => some ({ e with pipeIn := .async }, true)
      | _ => none
  else none

/-- `nn_excl_recv` with an `inpipe`. -/
def exclRecv (e : End) (n : ℕ) : Option End :=
  (e.pipeRecv n).map fun r => if r.2 then { r.1 with inpipe := false } else r.1

/-! ## Events -/

/-- `nn_sipc_handler` for `NN_USOCK_RECEIVED`. -/
def sipcReceived (e : End) (n : ℕ) : Option End :=
  match e.sipcIn with
  | .hdr =>
    if e.buf.head? = some msgNormal then
      let size := (getll (e.buf.drop 1)).toNat
      if 0 ≤ e.rcvmaxsize ∧ e.rcvmaxsize < size then
        -- the session fails and is removed from the socket
        some { e with state := .done, outpipe := false, inpipe := false }
      else if size = 0 then
        { e with read := e.read ++ e.buf, buf := [], sipcIn := .hasmsg }.pipebaseReceived
      else some ({ e with sipcIn := .body }.usockRecv size n)
    else none
  | .body => { e with sipcIn := .hasmsg }.pipebaseReceived
  | _ => none

/-- The handler of an event; `n` bounds the `recvmsg` that it may call. -/
def handle (e : End) (n : ℕ) : Event → Option End
  | .sent =>
    match e.state with
    | .sending => some ({ e with state := .receiving }.usockRecv 8 n)
    | .stopping => some e
    | .active =>
      if e.sipcOut = .sending then { e with sipcOut := .idle }.pipebaseSent else none
    | _ => none
  | .received =>
    match e.state with
    | .receiving =>
      some { e with state := if accepts e.socktype e.buf then .stopping else .done }
    | .stopping => some e
    | .active => e.sipcReceived n
    | _ => none
  | .pipeOut => if e.outpipe then none else some { e with outpipe := true }
  | .pipeIn => if e.inpipe then none else some { e with inpipe := true }

/-- The end of the header exchange: `nn_pipebase_start` and the first `nn_usock_recv`. -/
def start (e : End) (n : ℕ) : End :=
  { { e with state := .active, pipeIn := .async, pipeOut := .idle }.raise .pipeOut with
    sipcIn := .hdr, sipcOut := .idle }.usockRecv 9 n

/-- What happens at one end. All but `process` take the lock of the socket. -/
inductive Act
  /-- The next event is handled. -/
  | process (n : ℕ)
  /-- The descriptor becomes writable or readable. -/
  | fdOut (n : ℕ)
  | fdIn (n : ℕ)
  /-- The timer and the header exchange have been stopped. -/
  | stopped (n : ℕ)
  /-- `nn_send` of a message in two parts, with an `outpipe`. -/
  | send (sphdr body : Bytes) (size_lt : (sphdr ++ body).length < 2 ^ 64) (n : ℕ)
  /-- `nn_recv` with an `inpipe`. -/
  | recv (n : ℕ)

/-- One step of an end: `none` if it is not enabled, `some none` if an assertion fails. -/
def act (e : End) : Act → Option (Option End)
  | .process n =>
    match e.events with
    | [] => none
    | event :: events => some ({ e with events }.handle n event)
  | .fdOut n => if e.events = [] ∧ e.state ≠ .done ∧ e.hdr ≠ [] then some (e.usockSendRaw n) else none
  | .fdIn n =>
    if e.events = [] ∧ e.state ≠ .done ∧ e.want ≠ 0 then some (some (e.usockRecvRaw n)) else none
  | .stopped n => if e.events = [] ∧ e.state = .stopping then some (some (e.start n)) else none
  | .send sphdr body size_lt n =>
    if e.events = [] ∧ e.outpipe then
      some ({ e with sent := e.sent ++ [(⟨sphdr ++ body, size_lt⟩ : Payload)] }.exclSend sphdr body n)
    else none
  | .recv n => if e.events = [] ∧ e.inpipe then some (e.exclRecv n) else none

/-- The session is over, or does not start. -/
def close (e : End) : End := { e with state := .done, outpipe := false, inpipe := false }

end End

/-- What ends a session from outside. -/
inductive Ending
  /-- `NN_TIMER_TIMEOUT`: the header exchange takes longer than a second. -/
  | timeout
  /-- `NN_USOCK_ERROR`, which for an active session may follow `NN_USOCK_SHUTDOWN`. -/
  | error
  /-- `nn_close`. -/
  | close
  deriving DecidableEq

namespace End

/-- The handler of such an event. -/
def fail (e : End) : Ending → Option End
  | .timeout => if e.state = .sending ∨ e.state = .receiving then some e.close else none
  | .error =>
    match e.state with
    -- the header exchange ignores the socket while its timer stops
    | .stopping => some e
    | .done => none
    | _ => some e.close
  | .close => some e.close

/-- An end that has just connected or accepted a connection: `nn_streamhdr_start`. -/
def init (socktype : Socktype) (rcvmaxsize : ℤ) : End where
  socktype
  rcvmaxsize
  state := .sending
  events := []
  outpipe := false
  inpipe := false
  pipeOut := .deactivated
  pipeIn := .deactivated
  sipcOut := .unset
  sipcIn := .unset
  hdr := [protohdr socktype.protocol]
  u := ⟨[], 0⟩
  buf := []
  want := 0
  outgoing := []
  incoming := []
  read := []
  sent := []
  taken := []

end End

/-! ## Two ends -/

/-- The two ends of a connection. -/
abbrev Conn := Bool → End

/-- A step of a connection: of one end, or bytes on their way from it. -/
inductive ConnAct
  | act (x : Bool) (a : End.Act)
  | transfer (x : Bool) (n : ℕ)
  | fail (x : Bool) (f : Ending)

/-- One step; the state is `none` after a failed assertion. -/
def Conn.step : Option Conn → ConnAct → Option (Option Conn)
  | none, _ => none
  | some c, .act x a => ((c x).act a).map fun r => r.map fun e => Function.update c x e
  | some c, .transfer x n =>
    some (some fun y =>
      if y = x then { c y with outgoing := (c y).outgoing.drop n }
      else { c y with incoming := (c y).incoming ++ (c x).outgoing.take n })
  | some c, .fail x f =>
    if (c x).events = [] then ((c x).fail f).map fun e => some (Function.update c x e) else none

/-- The state after a run that fails no assertion. -/
theorem eq_some_get {α : Type*} {o : Option (Option α)} (h : (o.bind id).isSome) :
    o = some (some ((o.bind id).get h)) := by
  obtain ⟨_, ho, ha⟩ := Option.bind_eq_some_iff.mp (Option.some_get h).symm
  exact ho.trans (congrArg some ha)

/-- A fresh connection between two sockets. -/
def Conn.init (socktype : Bool → Socktype) (rcvmaxsize : Bool → ℤ) : Conn := fun x =>
  .init (socktype x) (rcvmaxsize x)

end Petunia.Ipc
