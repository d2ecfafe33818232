import ElasticFramework.Construction.Handlers
import ElasticFramework.Construction.Registry

/-!
# Asking the dispatcher for the best nodes

`ElasticClient::GetDevices` packs the name of the application, a deadline, the number of nodes it
wants and its own id into one message.  `HandlerGetBestCN` unpacks it, has
`Scoring::chooseBestCN` fill an array with that many keys of `CNs_`, looks up the address of each
and sends the addresses, a message each.

Sizes are those of a 64-bit machine: the id is an `unsigned long` on the client and a
`CNInfo::HASH_KEY_T`, an `int`, on the dispatcher.  The number of nodes is what `GetDevices` asks
for after it has counted the one on its own machine.  As elsewhere a copy or a read past the end of
a buffer has no result, nor has the use of a cell that was not written.
-/

namespace ElasticFramework

/-! ## The request -/

/-- `dispatcher_msg_type::kGetBestCN`. -/
def kGetBestCN : ℕ := 3

/-- The bytes of an `int`. -/
def leInt (x : Int32) : List UInt8 := leBytes 4 x.toUInt32.toNat

/-- An `int` at an offset. -/
def readInt (buf : List UInt8) (offset : ℕ) : Option Int32 :=
  (readAt buf offset 4).map fun x => Int32.ofNat x

/-- The `Paste`s of `GetDevices`.  `nameSize` is an `int`, and a negative number of bytes is more
than any buffer holds. -/
def packGetBestCN (sendBuf : MsgBuf) (appName : List UInt8) (deadline levelCnt : Int32)
    (clientId : UInt64) : Option (List UInt8) :=
  let nameSize := appName.length % 2 ^ 32
  if nameSize < 2 ^ 31 then
    (Draft.pasteAll ⟨sendBuf, 0⟩ [leBytes 4 kGetBestCN, leBytes 4 nameSize, appName.take nameSize,
      leInt deadline, leInt levelCnt, leBytes 8 clientId.toNat]).map Draft.buf
  else none

/-- What comes of the request on the client. -/
inductive BestCNMsg
  /-- Nothing is asked for. -/
  | refused
  /-- The message does not fit its buffer. -/
  | overrun
  | sent (msg : List UInt8)

/-- The request of `GetDevices`. -/
def getDevices (sendBuf : MsgBuf) (appName : List UInt8) (deadline levelCnt : Int32)
    (clientId : UInt64) : BestCNMsg :=
  if 0 < levelCnt then
    match packGetBestCN sendBuf appName deadline levelCnt clientId with
    | some msg => .sent msg
    | none => .overrun
  else .refused

/-- What `HandlerGetBestCN` reads. -/
structure BestCNRequest where
  appName : List UInt8
  deadline : Int32
  levelCnt : Int32
  clientId : Int32

/-- The fields of `buf`, each behind the name it was sent with. -/
def parseGetBestCN (buf : List UInt8) : Option BestCNRequest := do
  let nameSize ← readInt buf 4
  if nameSize < 0 then none
  else do
    let n := nameSize.toInt.toNat
    let appName ← bytesAt buf 8 n
    let deadline ← readInt buf (8 + n)
    let levelCnt ← readInt buf (8 + n + 4)
    let clientId ← readInt buf (8 + n + 8)
    some { appName := appName, deadline := deadline, levelCnt := levelCnt, clientId := clientId }

/-! ## The nodes -/

/-- An array on the heap: its cells, and whether something has been written behind them. -/
structure KeyArray where
  cells : List (Option ℤ)
  overrun : Bool
  deriving DecidableEq, Repr

namespace KeyArray

/-- `new CNInfo::HASH_KEY_T [n]`. -/
def new (n : ℕ) : KeyArray where
  cells := List.replicate n none
  overrun := false

/-- `idx[i] = key`. -/
def write (a : KeyArray) (i : ℕ) (key : ℤ) : KeyArray :=
  if i < a.cells.length then { a with cells := a.cells.set i (some key) }
  else { a with overrun := true }

/-- The loop over the nodes, from index `i` on. -/
def fill (a : KeyArray) (i : ℕ) : List ℤ → KeyArray
  | [] => a
  | key :: keys => (a.write i key).fill (i + 1) keys

end KeyArray

/-- `Scoring::chooseBestCN`. -/
def Scoring.chooseBestCN {K : Type*} (r : Registry K) (levelCnt : ℕ) : KeyArray :=
  (KeyArray.new levelCnt).fill 0 r.ids

/-! ## The answers -/

/-- An address as it is registered. -/
abbrev IPString := { s : List UInt8 // s.length ≤ 15 ∧ 0 ∉ s }

/-- The loop that sends `send_buf` with one address after the other in front. -/
def sendIPs (sendBuf : List UInt8) : List (List UInt8) → Option (List (List UInt8))
  | [] => some []
  | ip :: ips => do
    let b ← Draft.paste ⟨sendBuf, 0⟩ ip
    let more ← sendIPs b.buf ips
    some (b.buf :: more)

/-- The loop of `GetDevices`: a message for each node asked for, taken for a C string. -/
def recvIPs : ℕ → Recv (List (List UInt8))
  | 0 => pure []
  | n + 1 => do
    let recvBuf ← sockRecv kMsgMaxSize
    let ip ← Reader.orStop .overrun (cString recvBuf)
    let more ← recvIPs n
    pure (ip :: more)

/-- `HandlerGetBestCN`: the messages it sends.  `GetCN` of a key that is not there fails an
assertion. -/
def handlerGetBestCN {K : Type*} (r : Registry K) (ip : ℤ → IPString) (buf : List UInt8) :
    Option (List (List UInt8)) := do
  let request ← parseGetBestCN buf
  let key := Scoring.chooseBestCN r request.levelCnt.toInt.toNat
  if request.levelCnt < 0 ∨ key.overrun then none
  else do
    let ids ← key.cells.mapM id
    let ips ← ids.mapM fun id => (r.getCN id).map fun _ => (ip id : List UInt8)
    sendIPs zeroed ips

end ElasticFramework
