import ElasticFramework.Construction.Session

/-!
# One process for all clients

The `Run` threads of the compute node share a process: an `exit` in `SockSend` or `SockRecv`, a
failed assertion or an OpenCL call with an error (`_ED`, `GetErrorMsg`) in one of them is the end
of all. `Construction/Session.lean` has one client and what it reads; this file has any number of
them, with what the node keeps for each, and clients that go away.

## The machine

A client makes calls, of which the last may break off anywhere, and closes its connections; a
process that ends closes them too.  On a connection that was closed `recv` returns what has been
sent and then zero.  One that was reset, as when the client has not read all it was sent, may have
lost the last of what was sent; there `recv` returns an error after the rest, and then zero. What
`send` does on either is the network's choice.

`Run` keeps the result of `recv` in an `unsigned int`, so the error is a great many bytes to it: it
calls `recv` once more and leaves its loop at the zero.  It then waits for the queue, and its
vectors go with it; the assertion that there was no error holds.  `SockRecv` exits on an error as
on a zero.  Sessions are there from the start, and OpenCL's answers are part of the step.  An index
past the end of a vector is undefined behaviour and counted as the end of the process.
-/

namespace ElasticFramework

variable {T : Type*}

/-! ## The requests of a session -/

/-- The handler makes an OpenCL call. -/
def Request.callsOpenCL : Request → Bool
  | createProgramWithSource _ _ | buildProgram _ | createKernel _ _ | createBuffer _ _ _ => true
  | _ => false

/-- `Exec` makes an OpenCL call. -/
def Request.execCallsOpenCL : Request → Bool
  | finish _ => false
  | _ => true

/-- The client's end of the three sockets. -/
inductive Connection
  | open
  | closed
  | reset
  deriving DecidableEq, Repr

/-- Where a `Run` thread is. -/
inductive ThreadAt
  | serving (turn : RunTurn)
  /-- Out of the loop. -/
  | draining
  | gone
  deriving DecidableEq, Repr

/-- What a session has on the node. -/
structure Holdings where
  /-- The sources of the programs. -/
  programs : List (List (List UInt8))
  /-- The program and the name of each kernel. -/
  kernels : List (ℕ × List UInt8)
  /-- The flags and the size of each buffer. -/
  mems : List (ℕ × ℕ)
  /-- The commands, by the number of their request. -/
  queue : List (ℕ × Request)

namespace Holdings

def empty : Holdings where
  programs := []
  kernels := []
  mems := []
  queue := []

/-- Every index in the request is one of its vector. -/
def InRange (x : Holdings) : Request → Prop
  | .buildProgram programId | .createKernel programId _ => programId < x.programs.length
  | .enqueueTask comm => comm.kernelId < x.kernels.length
  | .enqueueNDRangeKernel comm _ _ =>
    comm.kernelId < x.kernels.length ∧ ∀ arg ∈ comm.argMemId, arg.2 < x.mems.length
  | .enqueueReadBuffer memId _ _ _ | .enqueueWriteBuffer memId _ _ _ _
  | .releaseMemObject memId => memId < x.mems.length
  | .enqueueCopyBuffer srcMemId dstMemId _ _ _ =>
    srcMemId < x.mems.length ∧ dstMemId < x.mems.length
  | .finish queueId => queueId = 0
  | .register _ | .createProgramWithSource _ _ | .createBuffer _ _ _ => True

instance (x : Holdings) : DecidablePred x.InRange := fun r =>
  match r with
  | .buildProgram _ | .createKernel _ _ | .enqueueTask _ | .enqueueReadBuffer _ _ _ _
  | .enqueueWriteBuffer _ _ _ _ _ | .releaseMemObject _ => inferInstanceAs (Decidable (_ < _))
  | .enqueueNDRangeKernel _ _ _ | .enqueueCopyBuffer _ _ _ _ _ =>
    inferInstanceAs (Decidable (_ ∧ _))
  | .finish _ => inferInstanceAs (Decidable (_ = _))
  | .register _ | .createProgramWithSource _ _ | .createBuffer _ _ _ => isTrue trivial

/-- What the handler of a request adds. -/
def handle (x : Holdings) (request : ℕ) : Request → Holdings
  | .createProgramWithSource _ strs => { x with programs := x.programs ++ [strs] }
  | .createKernel programId kernelName =>
    { x with kernels := x.kernels ++ [(programId, kernelName)] }
  | .createBuffer flags size _ => { x with mems := x.mems ++ [(flags, size)] }
  | r => if r.command.isSome then { x with queue := x.queue ++ [(request, r)] } else x

end Holdings

/-- A session on the node, and its client's end of the connections. -/
structure ClientSession where
  connection : Connection
  /-- The bytes on the main socket that `Run` has not read. -/
  inbox : List UInt8
  /-- The acknowledgements on the non-blocking socket. -/
  acks : ℕ
  /-- How many requests `Run` has read. -/
  served : ℕ
  thread : ThreadAt
  holdings : Holdings
  /-- The read whose acknowledgement the worker waits for. -/
  awaiting : Option ℕ

/-- A move in a session. -/
inductive ClientStep
  | call (c : Invocation)
  /-- The client sends the first `n` bytes of a call and closes. -/
  | cut (c : Invocation) (n : ℕ)
  | close
  /-- The connections are reset: of what is on its way, `n` bytes and `m` acknowledgements
  arrive. -/
  | reset (n m : ℕ)
  | acknowledge
  | serve (accepted : Bool)
  | wait
  | reply (delivered : Bool)
  /-- The oldest command is executed. -/
  | exec (accepted delivered : Bool)
  | recvAck
  /-- `WaitForFinishing` has returned. -/
  | leave

namespace ClientSession

def init : ClientSession where
  connection := .open
  inbox := []
  acks := 0
  served := 0
  thread := .serving .recv
  holdings := .empty
  awaiting := none

/-! ## The client's steps -/

/-- A call, whole or broken off; a client that has nothing to send exits. -/
def call (x : ClientSession) (c : Invocation) : Option ClientSession :=
  match x.connection, c.sent with
  | .open, some sent => some { x with
      inbox := x.inbox ++ sent.bytes
      connection := if sent.exited then .closed else .open }
  | _, _ => none

def cut (x : ClientSession) (c : Invocation) (n : ℕ) : Option ClientSession :=
  match x.connection, c.sent with
  | .open, some sent => some { x with inbox := x.inbox ++ sent.bytes.take n, connection := .closed }
  | _, _ => none

def close (x : ClientSession) : Option ClientSession :=
  match x.connection with
  | .open => some { x with connection := .closed }
  | _ => none

def reset (x : ClientSession) (n m : ℕ) : Option ClientSession :=
  match x.connection with
  | .open => some { x with
      inbox := x.inbox.take n
      acks := min x.acks m
      connection := .reset }
  | _ => none

def acknowledge (x : ClientSession) : Option ClientSession :=
  match x.connection with
  | .open => some { x with acks := x.acks + 1 }
  | _ => none

end ClientSession

/-! ## The node's steps -/

/-- What a step does to its session, or that it ends the process. -/
inductive Outcome
  | goes (x : ClientSession)
  | ends

namespace ClientSession

/-- `send` and `recv` find the other end gone. -/
def fails (x : ClientSession) (delivered : Bool) : Prop :=
  x.connection ≠ .open ∧ delivered = false

instance (x : ClientSession) (delivered : Bool) : Decidable (x.fails delivered) :=
  inferInstanceAs (Decidable (_ ∧ _))

/-- A round of `Run`. -/
def serve (x : ClientSession) (accepted : Bool) : Option Outcome :=
  match x.thread with
  | .serving .recv =>
    match nextRequest x.inbox with
    | (.ok r, inbox) =>
      if (r.callsOpenCL ∧ accepted = false) ∨ ¬ x.holdings.InRange r then some .ends
      else some (.goes { x with
        inbox := inbox
        served := x.served + 1
        thread := .serving (r.turn x.served)
        holdings := x.holdings.handle x.served r })
    | (.error .wait, _) =>
      if x.connection = .open then none
      -- A reset is the end of the loop as well, one `recv` later.
      else if x.inbox.length < kMsgMaxSize then some (.goes { x with thread := .draining })
      -- A handler is in `SockRecv`.
      else some .ends
    | (.error _, _) => some .ends
  | _ => none

/-- A handler gets to `pthread_cond_wait`. -/
def wait (x : ClientSession) : Option Outcome :=
  match x.thread with
  | .serving (.block request false replies) =>
    some (.goes { x with thread := .serving (.block request true replies) })
  | _ => none

/-- A handler sends the next of its replies, or returns. -/
def reply (x : ClientSession) (delivered : Bool) : Option Outcome :=
  match x.thread with
  | .serving (.send _ []) => some (.goes { x with thread := .serving .recv })
  | .serving (.send request ((_, n) :: replies)) =>
    if n % 2 ^ 32 = 0 ∨ x.fails delivered then some .ends
    else some (.goes { x with thread := .serving (.send request replies) })
  | _ => none

/-- The thread that waits for the command, and no other, goes on. -/
def wake (x : ClientSession) (request : ℕ) : ClientSession :=
  match x.thread with
  | .serving (.block waiter true replies) =>
    if waiter = request then { x with thread := .serving (.send waiter replies) } else x
  | _ => x

/-- `Exec` of the oldest command. -/
def exec (x : ClientSession) (accepted delivered : Bool) : Option Outcome :=
  match x.awaiting, x.holdings.queue with
  | none, (request, r) :: queue =>
    let x' := { x with holdings := { x.holdings with queue := queue } }
    if r.execCallsOpenCL ∧ accepted = false then some .ends
    else match r.command with
      | some (.read false cb) =>
        if cb % 2 ^ 32 = 0 ∨ x.fails delivered then some .ends
        else some (.goes { x' with awaiting := some request })
      | some command => some (.goes (if command.wakes then x'.wake request else x'))
      | none => some (.goes x')
  | _, _ => none

/-- The worker gets its acknowledgement. -/
def recvAck (x : ClientSession) : Option Outcome :=
  match x.awaiting with
  | some _ =>
    if 0 < x.acks then some (.goes { x with awaiting := none, acks := x.acks - 1 })
    else if x.connection = .open then none
    else some .ends
  | none => none

/-- The end of `Run`. -/
def leave (x : ClientSession) : Option Outcome :=
  match x.thread, x.holdings.queue, x.awaiting with
  | .draining, [], none => some (.goes { x with thread := .gone, holdings := .empty })
  | _, _, _ => none

def move (x : ClientSession) : ClientStep → Option Outcome
  | .call c => (x.call c).map .goes
  | .cut c n => (x.cut c n).map .goes
  | .close => x.close.map .goes
  | .reset n m => (x.reset n m).map .goes
  | .acknowledge => x.acknowledge.map .goes
  | .serve accepted => x.serve accepted
  | .wait => x.wait
  | .reply delivered => x.reply delivered
  | .exec accepted delivered => x.exec accepted delivered
  | .recvAck => x.recvAck
  | .leave => x.leave

end ClientSession

/-- The compute node and its clients. -/
structure Clients (T : Type*) where
  session : T → ClientSession
  /-- The process has ended. -/
  down : Bool

namespace Clients

def init : Clients T where
  session _ := .init
  down := false

/-- One session moves. -/
def move [DecidableEq T] (s : Clients T) (t : T) (l : ClientStep) : Option (Clients T) :=
  ((s.session t).move l).map fun
    | .goes x => { s with session := Function.update s.session t x }
    | .ends => { s with down := true }

end Clients

/-- The compute node with its clients, over when the process is. -/
def clients [DecidableEq T] : Machine (Clients T) (T × ClientStep) where
  step := fun s l => if s.down then none else s.move l.1 l.2

end ElasticFramework
