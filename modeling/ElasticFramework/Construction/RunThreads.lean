import Mathlib.Algebra.Group.Nat.Defs
import ElasticFramework.Framework.Transition

/-!
# The threads of `ElasticClient::run`

`run` (`client/elastic.cc`) creates a thread for each level and appends its `pthread_t` to the
member `run_pid_vector`; when all are there it joins the vector from its start to its end.  A thread
is in `runThread`: it reads the outputs of its level, which it is given in an `unsigned char`, and
calls `finishCallback`.  What the levels send and read is in `Construction/ElasticIO.lean`.

The vector is not cleared.  To join a thread that has been joined is undefined; here the call
returns, and what counts is for which threads it is made.  `work_item` is an array of ten entries,
and the entry for the launch is taken by the number of the level; `init` has stored them likewise.
Behind the end of the array there is nothing to say about the caller.

A `pthread_t` is the number of threads that the client had created before.  One client is used by
one thread, which calls `run` any number of times; the threads of the client move in any order.
-/

namespace ElasticFramework

/-- Where a thread is in `runThread`. -/
inductive LevelPc
  /-- It reads the outputs. -/
  | reading
  /-- `finishCallback` has returned. -/
  | called
  | exited
  deriving DecidableEq, Repr

/-- A thread: the call of `run` that created it, counted from one, and its level. -/
structure LevelThread where
  run : ℕ
  level : ℕ
  pc : LevelPc
  deriving DecidableEq

/-- Where the caller is in `run`. -/
inductive CallerPc
  | outside
  /-- At the thread of a level, in the first loop. -/
  | creating (level : ℕ)
  /-- At an index of the vector, in the second. -/
  | joining (i : ℕ)
  /-- Past the end of `work_item`. -/
  | overrun
  deriving DecidableEq, Repr

/-- The client, and the calls of `run` so far. -/
structure RunThreads where
  runs : ℕ
  pc : CallerPc
  runPidVector : List ℕ
  threads : List LevelThread

inductive RunStep
  /-- `run` is called. -/
  | call
  /-- A thread is created and put into the vector. -/
  | create
  /-- `pthread_join` returns. -/
  | join
  /-- A thread calls `finishCallback`. -/
  | finishCallback (pid : ℕ)
  /-- A thread returns from `runThread`. -/
  | exit (pid : ℕ)
  deriving DecidableEq

namespace RunThreads

/-- The entries of `work_item`. -/
def workItems : ℕ := 10

def init : RunThreads where
  runs := 0
  pc := .outside
  runPidVector := []
  threads := []

/-- The condition of the second loop; behind it `run` returns. -/
def joinFrom (s : RunThreads) (i : ℕ) : RunThreads :=
  { s with pc := if i < s.runPidVector.length then .joining i else .outside }

/-- The condition of the first loop, and the entry of `work_item`. -/
def createFrom (cnNum : ℕ) (s : RunThreads) (level : ℕ) : RunThreads :=
  if level < cnNum then { s with pc := if level < workItems then .creating level else .overrun }
  else s.joinFrom 0

/-- `pthread_create` and `push_back`. -/
def spawn (s : RunThreads) (level : ℕ) : RunThreads :=
  { s with
    runPidVector := s.runPidVector ++ [s.threads.length]
    threads := s.threads ++ [⟨s.runs, level % 2 ^ 8, .reading⟩] }

/-- Move a thread from one place to another. -/
def advance (s : RunThreads) (pid : ℕ) (pc pc' : LevelPc) : Option RunThreads :=
  match s.threads[pid]? with
  | some thread =>
    if thread.pc = pc then some { s with threads := s.threads.set pid { thread with pc := pc' } }
    else none
  | none => none

def step (cnNum : ℕ) (s : RunThreads) : RunStep → Option RunThreads
  | .call =>
    if s.pc = .outside then some (createFrom cnNum { s with runs := s.runs + 1 } 0) else none
  | .create =>
    match s.pc with
    | .creating level => some (createFrom cnNum (s.spawn level) (level + 1))
    | _ => none
  | .join =>
    match s.pc with
    | .joining i =>
      if ((s.runPidVector[i]?).bind fun pid => (s.threads[pid]?).map LevelThread.pc) = some .exited
      then some (s.joinFrom (i + 1))
      else none
    | _ => none
  | .finishCallback pid => s.advance pid .reading .called
  | .exit pid => s.advance pid .called .exited

/-- The threads that are created, with the call of `run` that does it. -/
def creates (s : RunThreads) : RunStep → List (ℕ × ℕ)
  | .create => [(s.runs, s.threads.length)]
  | _ => []

/-- The threads `pthread_join` is called for, with the call of `run` that does it. -/
def joins (s : RunThreads) : RunStep → List (ℕ × ℕ)
  | .join =>
    match s.pc with
    | .joining i => (s.runPidVector[i]?).toList.map fun pid => (s.runs, pid)
    | _ => []
  | _ => []

/-- The levels `finishCallback` is called with, and for which call of `run`. -/
def callbacks (s : RunThreads) : RunStep → List (ℕ × ℕ)
  | .finishCallback pid => (s.threads[pid]?).toList.map fun thread => (thread.run, thread.level)
  | _ => []

end RunThreads

/-- A client of `cnNum` devices. -/
def runThreads (cnNum : ℕ) : Machine RunThreads RunStep := ⟨RunThreads.step cnNum⟩

end ElasticFramework
