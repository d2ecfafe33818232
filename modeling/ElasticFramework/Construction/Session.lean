import ElasticFramework.Construction.Handlers
import ElasticFramework.Construction.MainLoop

/-!
# A session: replies on three sockets

A client and the `Run` thread that serves it, with what both do after a request is out.  Each side
has its own idea of the reply: the client's call goes on to `Recv` on one of its three connections,
or starts a `catcher` thread that does; the node's handler, or the `Exec` of the command it pushes,
calls `SockSend` on one of its three sockets.

## The machine

Calls are numbered in the order they are made, requests in the order they are read, and a byte on
its way to the client is kept as the number of the request it was sent for.  The client makes its
calls from one thread; its catchers all read the non-blocking socket, and whichever is scheduled
takes what has come.  On the node the session has the one queue clients ask for, its commands are
executed one after the other, and a read that does not block its caller holds the worker until the
catcher's acknowledgement comes.

`pthread_cond_signal` wakes nobody unless `Run` already waits, while a semaphore remembers; threads
do not wake for no reason.  Sockets hold any number of bytes.

A process ends when it has nothing to send or to receive, and at a failed assertion.  When the
client has exited the session is over; when the node is down the client reads what has been sent,
and exits at the end of the stream.
-/

namespace ElasticFramework

/-! ## What the client reads -/

/-- What the caller's thread reads after its request, on which socket. -/
def Call.reads : Call → Option (Port × ℕ)
  | register _ => some (.main, kMsgMaxSize)
  | createProgramWithSource _ _ => some (.main, kMsgMaxSize)
  | buildProgram _ _ => some (.main, kMsgMaxSize)
  | createKernel _ _ => some (.main, kMsgMaxSize)
  | enqueueReadBuffer _ _ cb blockingRead =>
    if blockingRead ≠ 0 then some (.nonBlocking, cb) else none
  | enqueueWriteBuffer _ _ _ blockingWrite _ =>
    if blockingWrite ≠ 0 then some (.main, kMsgMaxSize) else none
  | finish => some (.finish, kMsgMaxSize)
  | bullet3ReadResultBack dataSize => some (.main, dataSize)
  | _ => none

/-- What the call's `catcher` reads on the non-blocking socket. -/
def Call.catches : Call → Option ℕ
  | enqueueReadBuffer _ _ cb blockingRead => if blockingRead ≠ 0 then none else some cb
  | _ => none

/-! ## What the node sends -/

/-- The commands of the session's queue. -/
inductive QueuedCommand
  | kernel
  | copyBuffer
  | releaseMemObject
  | write (blockingWrite : Bool)
  | read (blockingRead : Bool) (cb : ℕ)
  | finish
  deriving DecidableEq, Repr

/-- `Exec` wakes the thread that has pushed the command. -/
def QueuedCommand.wakes : QueuedCommand → Bool
  | write blockingWrite => blockingWrite
  | read blockingRead _ => blockingRead
  | finish => true
  | _ => false

/-- The command a handler pushes. -/
def Request.command : Request → Option QueuedCommand
  | enqueueTask _ => some .kernel
  | enqueueReadBuffer _ _ cb blockingRead => some (.read (blockingRead ≠ 0) cb)
  | enqueueWriteBuffer _ _ _ blockingWrite _ => some (.write (blockingWrite ≠ 0))
  | finish _ => some .finish
  | enqueueNDRangeKernel _ _ _ => some .kernel
  | enqueueCopyBuffer _ _ _ _ _ => some .copyBuffer
  | releaseMemObject _ => some .releaseMemObject
  | _ => none

/-- What a handler sends itself, on which sockets. -/
def Request.replies : Request → List (Port × ℕ)
  | register _ => [(.main, kMsgMaxSize)]
  | createProgramWithSource _ _ => [(.main, kMsgMaxSize)]
  | buildProgram _ => [(.main, kMsgMaxSize)]
  | createKernel _ _ => [(.main, kMsgMaxSize)]
  | enqueueReadBuffer _ _ cb blockingRead =>
    if blockingRead ≠ 0 then [(.main, kMsgMaxSize), (.main, cb)] else []
  | enqueueWriteBuffer _ _ _ blockingWrite _ =>
    if blockingWrite ≠ 0 then [(.main, kMsgMaxSize)] else []
  | finish _ => [(.finish, kMsgMaxSize)]
  | _ => []

/-- Where `Run` is. -/
inductive RunTurn
  /-- In `recv`, for the next control message. -/
  | recv
  /-- In a handler that has pushed its command, before the wait or in it. -/
  | block (request : ℕ) (waiting : Bool) (replies : List (Port × ℕ))
  /-- Sending the replies that are left. -/
  | send (request : ℕ) (replies : List (Port × ℕ))
  deriving DecidableEq, Repr

/-- After the handler has read its request: it waits for a command that will wake it.
`HandlerFinish` waits on a semaphore, which is as good as waiting already. -/
def Request.turn (request : ℕ) (r : Request) : RunTurn :=
  match r.command with
  | none => .send request r.replies
  | some command =>
    if command.wakes then .block request (command = .finish) r.replies
    else .send request r.replies

/-! ## The state -/

/-- A client and its node. -/
structure Session where
  /-- How many calls the client has made. -/
  made : ℕ
  /-- The bytes on the main socket that `Run` has not read. -/
  inbox : List UInt8
  /-- The `Recv` the caller's thread is in: its call, the socket, and the bytes to come. -/
  reading : Option (ℕ × Port × ℕ)
  /-- The `Recv`s of the catchers, oldest first: the call and the bytes to come. -/
  catchers : List (ℕ × ℕ)
  /-- The acknowledgements on the non-blocking socket. -/
  acks : ℕ
  /-- The bytes on the way to the client. -/
  wire : Port → List ℕ
  /-- How many requests `Run` has read. -/
  served : ℕ
  run : RunTurn
  queue : List (ℕ × QueuedCommand)
  /-- The read whose acknowledgement the worker waits for. -/
  awaiting : Option ℕ
  /-- The client's process has ended. -/
  exited : Bool
  /-- The node's process has ended. -/
  down : Bool

namespace Session

def init : Session where
  made := 0
  inbox := []
  reading := none
  catchers := []
  acks := 0
  wire _ := []
  served := 0
  run := .recv
  queue := []
  awaiting := none
  exited := false
  down := false

/-! ## The client's steps -/

/-- A call sends its request and goes on to read, or starts its catcher. -/
def call (s : Session) (c : Invocation) : Option Session :=
  match s.reading, c.sent with
  | none, some sent =>
    if sent.exited then some { s with exited := true }
    else some { s with
      made := s.made + 1
      inbox := s.inbox ++ sent.bytes
      reading := c.call.reads.map fun x => (s.made, x.1, x.2 % 2 ^ 32)
      catchers := s.catchers ++ (c.call.catches.map fun cb => (s.made, cb % 2 ^ 32)).toList }
  | _, _ => none

/-- A `Recv` of `left` bytes that cannot get any ends the client. -/
def recvFails (s : Session) (p : Port) (left : ℕ) : Prop :=
  left = 0 ∨ s.down ∧ s.wire p = []

instance (s : Session) (p : Port) (left : ℕ) : Decidable (s.recvFails p left) :=
  inferInstanceAs (Decidable (_ ∨ _))

/-- The caller's thread gets `n` bytes. -/
def recv (s : Session) (n : ℕ) : Option Session :=
  match s.reading with
  | some (request, p, left) =>
    if s.recvFails p left then some { s with exited := true }
    else if 0 < n ∧ n ≤ left ∧ n ≤ (s.wire p).length then
      some { s with
        wire := Function.update s.wire p ((s.wire p).drop n)
        reading := if n = left then none else some (request, p, left - n) }
    else none
  | none => none

/-- The catcher in place `i` gets `n` bytes; after the last it acknowledges and is gone. -/
def catcher (s : Session) (i n : ℕ) : Option Session :=
  match s.catchers[i]? with
  | some (request, left) =>
    if s.recvFails .nonBlocking left then some { s with exited := true }
    else if 0 < n ∧ n ≤ left ∧ n ≤ (s.wire .nonBlocking).length then
      let wire := Function.update s.wire .nonBlocking ((s.wire .nonBlocking).drop n)
      if n = left then
        some { s with wire := wire, catchers := s.catchers.eraseIdx i, acks := s.acks + 1 }
      else some { s with wire := wire, catchers := s.catchers.set i (request, left - n) }
    else none
  | none => none

/-! ## The node's steps -/

/-- `SockSend` of `n` bytes for a request. -/
def sockSend (s : Session) (p : Port) (request n : ℕ) : Session :=
  { s with wire := Function.update s.wire p (s.wire p ++ List.replicate (n % 2 ^ 32) request) }

/-- A round of `Run`: a request is read and handled. -/
def serve (s : Session) : Option Session :=
  if s.run = .recv then
    match nextRequest s.inbox with
    | (.ok r, inbox) => some { s with
        inbox := inbox
        served := s.served + 1
        run := r.turn s.served
        queue := s.queue ++ (r.command.map fun command => (s.served, command)).toList }
    | (.error .wait, _) => none
    | (.error _, _) => some { s with down := true }
  else none

/-- A handler gets to `pthread_cond_wait`. -/
def wait (s : Session) : Option Session :=
  match s.run with
  | .block request false replies => some { s with run := .block request true replies }
  | _ => none

/-- A handler sends the next of its replies, or returns. -/
def reply (s : Session) : Option Session :=
  match s.run with
  | .send _ [] => some { s with run := .recv }
  | .send request ((p, n) :: replies) =>
    if n % 2 ^ 32 = 0 then some { s with down := true }
    else some ({ s with run := .send request replies }.sockSend p request n)
  | _ => none

/-- The thread that waits for the command, and no other, goes on. -/
def wake (s : Session) (request : ℕ) : Session :=
  match s.run with
  | .block waiter true replies =>
    if waiter = request then { s with run := .send waiter replies } else s
  | _ => s

/-- `Exec` of the oldest command. -/
def exec (s : Session) : Option Session :=
  match s.awaiting, s.queue with
  | none, (request, command) :: queue =>
    if command.wakes then some ({ s with queue := queue }.wake request)
    else match command with
      | .read _ cb =>
        if cb % 2 ^ 32 = 0 then some { s with down := true }
        else some ({ s with queue := queue, awaiting := some request }.sockSend
          .nonBlocking request cb)
      | _ => some { s with queue := queue }
  | _, _ => none

/-- The worker gets its acknowledgement. -/
def ack (s : Session) : Option Session :=
  match s.awaiting with
  | some _ =>
    if 0 < s.acks then some { s with awaiting := none, acks := s.acks - 1 } else none
  | none => none

end Session

/-- Who moves. -/
inductive SessionStep
  | call (c : Invocation)
  | recv (n : ℕ)
  | catcher (i n : ℕ)
  | serve
  | wait
  | reply
  | exec
  | ack

/-- The node moves. -/
def SessionStep.ofNode : SessionStep → Bool
  | call _ | recv _ | catcher _ _ => false
  | serve | wait | reply | exec | ack => true

def Session.move (s : Session) : SessionStep → Option Session
  | .call c => s.call c
  | .recv n => s.recv n
  | .catcher i n => s.catcher i n
  | .serve => s.serve
  | .wait => s.wait
  | .reply => s.reply
  | .exec => s.exec
  | .ack => s.ack

/-- A session, over when the client has exited. -/
def session : Machine Session SessionStep where
  step := fun s l => if s.exited ∨ s.down ∧ l.ofNode then none else s.move l

end ElasticFramework
