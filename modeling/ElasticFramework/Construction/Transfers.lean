import ElasticFramework.Construction.KernelArgs

/-!
# Blocking transfers

`HandlerEnqueueWriteBuffer` and `HandlerEnqueueReadBuffer` push a command on the session's queue,
call its `Blocking`, which is a `pthread_cond_wait` and nothing else, and answer with its
`err_code`.  From the push on a device worker may have the command.  `CommandWrite::Exec` makes its
OpenCL calls, signals and stores the error code; `CommandRead::Exec` stores the error code first.

## The machine

One transfer, the handler and the worker a step at a time.  `pthread_cond_signal` lets the handler
go on if it waits, and does nothing otherwise; a handler that waits may also go on for no reason.
A write to a buffer that no kernel has used goes to every device, so there may be several OpenCL
calls; one that fails ends the process (`_ED`), and the error code of the last is stored.
-/

namespace ElasticFramework

/-- Where the handler is. -/
inductive HandlerAt
  | start
  /-- After `Push`, on the way to `pthread_cond_wait`. -/
  | pushed
  | waiting
  /-- After `Blocking`. -/
  | through
  /-- The reply has been sent, with this error code. -/
  | replied (errCode : ℤ)
  deriving DecidableEq, Repr

/-- Where the worker is in `Exec`. -/
inductive WorkerAt
  | idle
  /-- An OpenCL call has returned, and there are others to make. -/
  | called (errCode : ℤ) (left : ℕ)
  /-- Between the signal and the error code, in whichever order they come. -/
  | between (errCode : ℤ)
  | done (errCode : ℤ)
  deriving DecidableEq, Repr

/-- A handler and the worker that has its command. -/
structure Transfer where
  /-- A `CommandWrite`, or else a `CommandRead`. -/
  isWrite : Bool
  /-- How many OpenCL calls follow the first. -/
  moreCalls : ℕ
  handler : HandlerAt
  worker : WorkerAt
  /-- `err_code_` of the command. -/
  errCode : ℤ
  /-- The process has ended. -/
  down : Bool
  deriving DecidableEq, Repr

inductive TransferStep
  | push
  | wait
  /-- An OpenCL call returns. -/
  | call (errCode : ℤ)
  | signal
  | setErrCode
  /-- The handler wakes up for no reason. -/
  | wakeUp
  | reply
  deriving DecidableEq, Repr

namespace Transfer

/-- Before the push; `Command::Command` has set the error code. -/
def init (isWrite : Bool) (moreCalls : ℕ) : Transfer where
  isWrite := isWrite
  moreCalls := moreCalls
  handler := .start
  worker := .idle
  errCode := clSuccess
  down := false

def push (s : Transfer) : Option Transfer :=
  match s.handler with
  | .start => some { s with handler := .pushed }
  | _ => none

def wait (s : Transfer) : Option Transfer :=
  match s.handler with
  | .pushed => some { s with handler := .waiting }
  | _ => none

def wakeUp (s : Transfer) : Option Transfer :=
  match s.handler with
  | .waiting => some { s with handler := .through }
  | _ => none

def reply (s : Transfer) : Option Transfer :=
  match s.handler with
  | .through => some { s with handler := .replied s.errCode }
  | _ => none

/-- `pthread_cond_signal`. -/
def wake (s : Transfer) : Transfer :=
  match s.handler with
  | .waiting => { s with handler := .through }
  | _ => s

/-- The worker makes its next OpenCL call, once there is a command. -/
def call (s : Transfer) (errCode : ℤ) : Option Transfer :=
  match s.handler, s.worker with
  | .start, _ => none
  | _, .idle =>
    if errCode = clSuccess then some { s with worker := .called errCode s.moreCalls }
    else some { s with down := true }
  | _, .called _ (left + 1) =>
    if errCode = clSuccess then some { s with worker := .called errCode left }
    else some { s with down := true }
  | _, _ => none

/-- A write signals first, a read last. -/
def signal (s : Transfer) : Option Transfer :=
  match s.isWrite, s.worker with
  | true, .called errCode 0 => some { s.wake with worker := .between errCode }
  | false, .between errCode => some { s.wake with worker := .done errCode }
  | _, _ => none

def setErrCode (s : Transfer) : Option Transfer :=
  match s.isWrite, s.worker with
  | true, .between errCode => some { s with worker := .done errCode, errCode := errCode }
  | false, .called errCode 0 => some { s with worker := .between errCode, errCode := errCode }
  | _, _ => none

def move (s : Transfer) : TransferStep → Option Transfer
  | .push => s.push
  | .wait => s.wait
  | .call errCode => s.call errCode
  | .signal => s.signal
  | .setErrCode => s.setErrCode
  | .wakeUp => s.wakeUp
  | .reply => s.reply

end Transfer

/-- A blocking transfer, over when the process is. -/
def transfer : Machine Transfer TransferStep where
  step := fun s l => if s.down then none else s.move l

end ElasticFramework
