import ElasticFramework.Construction.Devices
import ElasticFramework.Framework.Transition

/-!
# The buffers of a kernel, level by level

`ElasticIO` (`client/elastic.h`) keeps the inputs and the outputs of a kernel in two arrays with a
vector for each level.  `ElasticClient::init` (`client/elastic.cc`) makes a buffer for every entry
on the device of its level and binds it to the argument of its position, the outputs behind the
inputs; `run` writes the inputs, launches, and has a thread read the outputs.

The static variables, the vectors of connections with `total_cn` and the counters `mem_id` of
`CreateBuffer`, are those of the process; `kernel_vector` and `work_item` belong to one
`ElasticClient`.  Indexing an array past its end has no result.

The numbers of groups and arguments are not negative.  Addresses are numbers; what `init` reads
through one is a parameter.
-/

namespace ElasticFramework

/-- `struct IO`; `clmem`, here the id of the buffer, is not set by `setIO`. -/
structure IOEntry where
  address : ℕ
  size : ℕ
  clmem : Option ℕ
  deriving DecidableEq

/-- The two arrays of an `ElasticIO`. -/
inductive IOKind
  | input
  | output
  deriving DecidableEq

/-- `class ElasticIO`. -/
structure ElasticIO where
  level : ℕ
  input : List (List IOEntry)
  output : List (List IOEntry)
  deriving DecidableEq

namespace ElasticIO

/-- `ElasticIO::ElasticIO`. -/
def new (level : ℕ) : ElasticIO where
  level := level
  input := List.replicate level []
  output := List.replicate level []

/-- The array of a kind. -/
def table (io : ElasticIO) : IOKind → List (List IOEntry)
  | .input => io.input
  | .output => io.output

/-- `vector<IO>` after an entry was set: overwritten if it is there, else appended. -/
def setEntry (v : List IOEntry) (argNum address size : ℕ) : List IOEntry :=
  if argNum < v.length then
    v.modify argNum fun e => { e with address := address, size := size }
  else v ++ [{ address := address, size := size, clmem := none }]

/-- `ElasticIO::setIO` on one of the arrays. -/
def setIO (level : ℕ) (io : List (List IOEntry)) (group argNum address size : ℕ) :
    Option (List (List IOEntry)) :=
  if level < group then some io
  else (io[group]?).map fun v => io.set group (setEntry v argNum address size)

/-- `ElasticIO::setInput`. -/
def setInput (io : ElasticIO) (group argNum address size : ℕ) : Option ElasticIO := do
  let input ← setIO io.level io.input group argNum address size
  some { io with input := input }

/-- `ElasticIO::setOutput`. -/
def setOutput (io : ElasticIO) (group argNum address size : ℕ) : Option ElasticIO := do
  let output ← setIO io.level io.output group argNum address size
  some { io with output := output }

/-- A call of `setInput` or `setOutput`. -/
structure SetCall where
  kind : IOKind
  group : ℕ
  argNum : ℕ
  address : ℕ
  size : ℕ
  deriving DecidableEq

/-- The calls, one after the other. -/
def machine : Machine ElasticIO SetCall where
  step io c :=
    match c.kind with
    | .input => io.setInput c.group c.argNum c.address c.size
    | .output => io.setOutput c.group c.argNum c.address c.size

end ElasticIO

/-! ## The client -/

namespace ElasticClient

/-- What belongs to one `ElasticClient`. -/
structure Client where
  /-- A kernel, by the number of its device. -/
  kernelVector : List ℕ
  io : Option ElasticIO
  workItem : List ℕ
  cnNum : ℕ

/-- The static variables, the clients, and the arguments that were bound: of which kernel, at which
index, and to the buffer with which id. -/
structure Process where
  devices : Option Devices
  memId : List ℕ
  client : ℕ → Client
  args : List (ℕ × ℕ × ℕ)

/-- A process that has not called `init`. -/
def Process.init : Process where
  devices := none
  memId := List.replicate 3 0
  client := fun _ =>
    { kernelVector := [], io := none, workItem := List.replicate 10 0, cnNum := 0 }
  args := []

/-- `GetDevices`, which remembers what its first call has come to. -/
def getDevices (net : Network) (devices : Option Devices) (levelCnt : ℕ) : Devices :=
  devices.getD (firstGetDevices net levelCnt)

/-- The counter of `CreateBuffer`: the id of the buffer and the counters after it. -/
def createBuffer (memId : List ℕ) (devices : ℕ) : Option (ℕ × List ℕ) :=
  (memId[devices]?).map fun id => (id, memId.set devices ((id + 1) % 2 ^ 32))

/-- The loop over the inputs, or over the outputs, of a level, from argument `i` on. -/
def bindEntries (kernelVector : List ℕ) (level : ℕ) :
    ℕ → List IOEntry → List ℕ → Option (List IOEntry × List ℕ × List (ℕ × ℕ × ℕ))
  | _, [], memId => some ([], memId, [])
  | i, e :: es, memId => do
    let (id, memId) ← createBuffer memId level
    let kernel ← kernelVector[level]?
    let (es, memId, args) ← bindEntries kernelVector level (i + 1) es memId
    some ({ e with clmem := some id } :: es, memId, (kernel, i, id) :: args)

/-- What the loop of `init` over the levels changes. -/
structure Setup where
  io : ElasticIO
  memId : List ℕ
  workItem : List ℕ
  args : List (ℕ × ℕ × ℕ)

/-- The body of this loop. -/
def initLevel (readInt : ℕ → ℤ) (kernelVector : List ℕ) (s : Setup) (level : ℕ) :
    Option Setup := do
  let inputs ← s.io.input[level]?
  let (inputs, memId, args) ← bindEntries kernelVector level 0 inputs s.memId
  let outputs ← s.io.output[level]?
  let (outputs, memId, args') ← bindEntries kernelVector level inputs.length outputs memId
  let temp ← inputs[3]?
  if level < s.workItem.length then
    some {
      io := { s.io with
        input := s.io.input.set level inputs
        output := s.io.output.set level outputs }
      memId := memId
      workItem := s.workItem.set level
        (readInt temp.address * readInt (temp.address + 4) % 2 ^ 64).toNat
      args := s.args ++ args ++ args' }
  else none

/-- `ElasticClient::init` of client `c`. -/
def init (net : Network) (readInt : ℕ → ℤ) (p : Process) (c : ℕ) (io : ElasticIO) :
    Option Process := do
  let devices := getDevices net p.devices io.level
  let cnNum := devices.totalCn
  let kernelVector := (p.client c).kernelVector ++ List.range cnNum
  let s ← (List.range cnNum).foldlM (initLevel readInt kernelVector)
    ⟨io, p.memId, (p.client c).workItem, p.args⟩
  some {
    devices := some devices
    memId := s.memId
    client := Function.update p.client c
      { kernelVector := kernelVector, io := some s.io, workItem := s.workItem, cnNum := cnNum }
    args := s.args }

/-- What is done for a level: the inputs that are written, the kernel and the size it is launched
with, and the outputs that are read. -/
structure LevelRun where
  inputs : List IOEntry
  kernel : ℕ
  workItem : ℕ
  outputs : List IOEntry

/-- The body of the loop of `run`, with the thread it starts. -/
def runLevel (c : Client) (io : ElasticIO) (level : ℕ) : Option LevelRun := do
  let inputs ← io.input[level]?
  let kernel ← c.kernelVector[level]?
  let workItem ← c.workItem[level]?
  let outputs ← io.output[level]?
  some { inputs := inputs, kernel := kernel, workItem := workItem, outputs := outputs }

/-- `ElasticClient::run`. -/
def run (c : Client) : Option (List LevelRun) := do
  let io ← c.io
  (List.range c.cnNum).mapM (runLevel c io)

/-- An `ElasticIO` with the inputs that `init` reads. -/
structure PreparedIO where
  io : ElasticIO
  level_pos : 1 ≤ io.level
  length_input : io.input.length = io.level
  length_output : io.output.length = io.level
  four : ∀ v ∈ io.input, 4 ≤ v.length

/-- `init` of a client with some `ElasticIO`, and `run`. -/
def launches (net : Network) (readInt : ℕ → ℤ) : Machine Process (ℕ × PreparedIO) where
  step p l := do
    let p ← init net readInt p l.1 l.2.io
    let _ ← run (p.client l.1)
    some p

end ElasticClient

end ElasticFramework
