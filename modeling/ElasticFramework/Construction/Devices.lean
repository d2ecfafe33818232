import ElasticFramework.Construction.NodeList
import ElasticFramework.Construction.Wire

/-!
# Connecting to the nodes

The first `ElasticClient::GetDevices` (`client/elastic.cc`) tries the node on the client's own
machine, asks the dispatcher for the addresses of as many others as are still wanted, and tries
these in order.  For each it calls `GetConnection`, `GetNonBlockingConnection` and
`GetFinishConnection`; each of them has a static vector of its own, to which it appends the
connection when `Connect` succeeds.  Where there is a main connection at index `total_cn`, a `kReg`
message is sent on it and it is counted.

At least one level is asked for.  The request to the dispatcher and its answers are messages of
their own (`Construction/BestNodes.lean`); here an answer is the address it is taken for.  Once a
connection is there, sending on it succeeds.
-/

namespace ElasticFramework

def kCNFinishPort : ℤ := 6792

/-- A `SocketIOClient` that has connected: the address and the port. -/
structure SocketIOClient where
  ip : List UInt8
  port : ℤ
  deriving DecidableEq

/-- Whether `Connect` succeeds, for each of the connections to one node. -/
structure Attempt where
  main : Bool
  nonBlocking : Bool
  finish : Bool
  deriving DecidableEq

/-- What `GetDevices` meets with: the attempts, the first of them on the client's own machine, and
the addresses the dispatcher answers with, if it can be reached. -/
structure Network where
  attempt : ℕ → Attempt
  dispatcher : Option (ℕ → List UInt8)

namespace ElasticClient

/-- The three accessors on their static vector: a connection to `ip`, if one is given, is tried and
kept when it succeeds, and the one at index `no` is returned if there is one. -/
def connection (port : ℤ) (connVector : List SocketIOClient) (no : ℕ) (ip : List UInt8)
    (connected : Bool) : Option SocketIOClient × List SocketIOClient :=
  let connVector := if 0 < ip.length ∧ connected then connVector ++ [⟨ip, port⟩] else connVector
  (connVector[no]?, connVector)

/-- `GetConnection`. -/
def getConnection := connection kCNPort

/-- `GetNonBlockingConnection`. -/
def getNonBlockingConnection := connection kCNNonBlockingPort

/-- `GetFinishConnection`. -/
def getFinishConnection := connection kCNFinishPort

/-- The static vectors, `total_cn`, and the control messages sent on the main connections, by the
index of the connection. -/
structure Devices where
  main : List SocketIOClient
  nonBlocking : List SocketIOClient
  finish : List SocketIOClient
  totalCn : ℕ
  sent : List (ℕ × List UInt8)

/-- The `kReg` message, of a buffer that was filled with zeros. -/
def regMsg : List UInt8 := ((message zeroed .reg []).getD [])

namespace Devices

def init : Devices where
  main := []
  nonBlocking := []
  finish := []
  totalCn := 0
  sent := []

/-- The three accessors, one after the other, for a new address. -/
def connect (s : Devices) (ip : List UInt8) (a : Attempt) : Devices :=
  { s with
    main := (getConnection s.main 0 ip a.main).2
    nonBlocking := (getNonBlockingConnection s.nonBlocking 0 ip a.nonBlocking).2
    finish := (getFinishConnection s.finish 0 ip a.finish).2 }

/-- `GetConnection(total_cn)`, with the default address. -/
def current (s : Devices) : Option SocketIOClient := (getConnection s.main s.totalCn [] false).1

/-- The block that registers on the connection at `total_cn`. -/
def register (s : Devices) : Devices :=
  match s.current with
  | some _ => { s with sent := s.sent ++ [(s.totalCn, regMsg)], totalCn := s.totalCn + 1 }
  | none => s

end Devices

/-- The address of the client's own machine, `"127.0.0.1"`. -/
def localIP : List UInt8 := [49, 50, 55, 46, 48, 46, 48, 46, 49]

/-- The array `ip` after the dispatcher was asked for `levelCnt` addresses. -/
def askDispatcher (net : Network) (levelCnt : ℕ) : List (List UInt8) :=
  (List.range levelCnt).map fun i => net.dispatcher.elim [] fun answer => answer i

/-- The first call of `GetDevices`. -/
def firstGetDevices (net : Network) (levelCnt : ℕ) : Devices :=
  let s := Devices.init.connect localIP (net.attempt 0)
  let levelCnt := if s.current.isSome then levelCnt - 1 else levelCnt
  let ip := askDispatcher net levelCnt
  (ip.zipIdx 1).foldl (fun s x => (s.connect x.1 (net.attempt x.2)).register) s.register

end ElasticClient

end ElasticFramework
