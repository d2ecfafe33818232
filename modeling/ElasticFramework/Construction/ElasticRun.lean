import ElasticFramework.Construction.LevelCalls
import ElasticFramework.Construction.RunThreads
import ElasticFramework.Construction.Session

/-!
# `ElasticClient::run` with its sessions

`run` has a thread for each level (`Construction/RunThreads.lean`), and each level has a connection
with calls to be made on it (`Construction/LevelCalls.lean`).  Here the threads make these calls.
The caller's thread goes from level to level: it writes the inputs, launches, and starts the thread
that reads the outputs; every read and write blocks.  What becomes of a call on its three sockets is
the session's matter (`Construction/Session.lean`), one for each level.

Before `run` the calls of `init` are made, in any order of the levels.  When a call has exited, the
process is over.
-/

namespace ElasticFramework

namespace ElasticClient

/-- The threads of `run` and the sessions of the levels. -/
structure ElasticRun where
  threads : RunThreads
  session : ℕ → Session
  /-- How many of the calls of `init` have been made for a level. -/
  prepared : ℕ → ℕ
  /-- How many calls the caller's thread has made for the level it is at. -/
  sent : ℕ
  /-- How many outputs a thread has asked for. -/
  asked : ℕ → ℕ
  exited : Bool

/-- A thread of the client moves; the next call is made in `init`, by the caller's thread in `run`,
or by another thread; or a session moves otherwise. -/
inductive ElasticStep
  | thread (l : RunStep)
  | setup (level : ℕ) (stack : Stack)
  | send (stack : Stack)
  | read (pid : ℕ) (stack : Stack)
  | session (level : ℕ) (l : SessionStep)

namespace ElasticRun

def init : ElasticRun where
  threads := .init
  session := fun _ => .init
  prepared := fun _ => 0
  sent := 0
  asked := fun _ => 0
  exited := false

/-- The calls of a level have all been made, and nobody waits for a reply. -/
def returned (s : ElasticRun) (level made : ℕ) (calls : List Call) : Bool :=
  made = calls.length && (s.session level).reading.isNone

/-- What a thread has to have done before it moves on. -/
def ready (cnNum : ℕ) (plan : ℕ → LevelPlan) (s : ElasticRun) : RunStep → Bool
  | .call => (List.range cnNum).all fun level =>
      s.returned level (s.prepared level) (plan level).setup
  | .create =>
    match s.threads.pc with
    | .creating level => s.returned level s.sent (plan level).sends
    | _ => true
  | .finishCallback pid =>
    match s.threads.threads[pid]? with
    | some thread => s.returned thread.level (s.asked pid) (plan thread.level).reads
    | none => true
  | .join | .exit _ => true

/-- A session makes a move. -/
def move (s : ElasticRun) (level : ℕ) (l : SessionStep) : Option ElasticRun :=
  (ElasticFramework.session.step (s.session level) l).map fun x =>
    { s with session := Function.update s.session level x, exited := x.exited }

/-- The call that is next is made. -/
def call (s : ElasticRun) (level made : ℕ) (calls : List Call) (stack : Stack) :
    Option ElasticRun :=
  (calls[made]?).bind fun c => s.move level (.call ⟨c, stack⟩)

def step (cnNum : ℕ) (plan : ℕ → LevelPlan) (s : ElasticRun) : ElasticStep → Option ElasticRun
  | .thread l =>
    if s.ready cnNum plan l then (RunThreads.step cnNum s.threads l).map fun threads =>
      { s with threads := threads, sent := if l = .create then 0 else s.sent }
    else none
  | .setup level stack =>
    if s.threads.runs = 0 then
      (s.call level (s.prepared level) (plan level).setup stack).map fun s' =>
        { s' with prepared := Function.update s.prepared level (s.prepared level + 1) }
    else none
  | .send stack =>
    match s.threads.pc with
    | .creating level =>
      (s.call level s.sent (plan level).sends stack).map fun s' => { s' with sent := s.sent + 1 }
    | _ => none
  | .read pid stack =>
    match s.threads.threads[pid]? with
    | some thread =>
      if thread.pc = .reading then
        (s.call thread.level (s.asked pid) (plan thread.level).reads stack).map fun s' =>
          { s' with asked := Function.update s.asked pid (s.asked pid + 1) }
      else none
    | none => none
  | .session level l =>
    match l with
    | .call _ => none
    | l => s.move level l

end ElasticRun

/-- A client of `cnNum` levels. -/
def elasticRun (cnNum : ℕ) (plan : ℕ → LevelPlan) : Machine ElasticRun ElasticStep where
  step s l := if s.exited then none else s.step cnNum plan l

end ElasticClient

end ElasticFramework
