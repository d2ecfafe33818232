import ElasticFramework.Construction.Session
import ElasticFramework.Properties.Framing

/-!
# The books of a session

What the node sends for a request agrees with what the client reads for its call, except that a
blocking read is answered on the main socket and awaited on the non-blocking one
(`Call.Decodes.replies_eq`, `Call.Decodes.sends_eq`).  This module carries that agreement through
the session: `Books` relates what is on the way, what `Run` and the worker are about to send and
what the requests not yet read will ask for to what the client's threads wait for, socket by
socket, and `Books.step` keeps it.

The main and the finish socket have one reader, so their books are one equation of byte sequences.
On the non-blocking socket the catchers wait in the order of their calls while the worker serves
one at a time, and its books go read by read (`Caught`).
-/

namespace ElasticFramework

open Reader

/-! ## One call and its request -/

/-- `clEnqueueReadBuffer` with `blocking_read`: the node replies on the main socket, where nobody
reads. -/
def Call.BlockingRead : Call → Prop
  | enqueueReadBuffer _ _ _ blockingRead => blockingRead ≠ 0
  | _ => False

instance : DecidablePred Call.BlockingRead := fun c =>
  match c with
  | .enqueueReadBuffer _ _ _ _ => inferInstanceAs (Decidable (_ ≠ _))
  | .register _ | .createProgramWithSource _ _ | .buildProgram _ _ | .createKernel _ _
  | .enqueueTask _ | .createBuffer _ _ _ | .enqueueWriteBuffer _ _ _ _ _ | .finish
  | .enqueueNDRangeKernel _ _ _ | .enqueueCopyBuffer _ _ _ _ _ | .releaseMemObject _
  | .bullet3ReadResultBack _ | .bullet3WriteToGPU _ _ => isFalse id

/-- What `Exec` sends on the non-blocking socket. -/
def QueuedCommand.sends : QueuedCommand → Option ℕ
  | read blockingRead cb => if blockingRead then none else some (cb % 2 ^ 32)
  | _ => none

lemma toNat_ne_zero_iff (b : UInt32) : b.toNat ≠ 0 ↔ b ≠ 0 := by
  rw [ne_eq, ne_eq, ← UInt32.toNat_inj]
  rfl

/-- But for blocking reads, a handler sends what its caller reads. -/
lemma Call.Decodes.replies_eq {c : Call} {r : Request} (h : c.Decodes r) (hc : ¬ c.BlockingRead) :
    r.replies = c.reads.toList := by
  cases h with
  | enqueueReadBuffer memId offset cb blockingRead =>
      have hzero : blockingRead = 0 := not_not.1 hc
      subst hzero
      rfl
  | enqueueWriteBuffer memId offset cb blockingWrite ptr =>
      simp only [Request.replies, Call.reads, toNat_ne_zero_iff]
      split <;> rfl
  | _ => rfl

/-- A command sends what the call's catcher reads. -/
lemma Call.Decodes.sends_eq {c : Call} {r : Request} (h : c.Decodes r) :
    r.command.bind QueuedCommand.sends = c.catches.map (· % 2 ^ 32) := by
  cases h with
  | enqueueReadBuffer memId offset cb blockingRead =>
      simp only [Request.command, Option.bind_some, QueuedCommand.sends, Call.catches,
        toNat_ne_zero_iff, decide_eq_true_eq]
      split
      · rfl
      · show some (cb % 2 ^ 64 % 2 ^ 32) = some (cb % 2 ^ 32)
        congr 1
        omega
  | _ => rfl

lemma Call.reads_port {c : Call} (hc : ¬ c.BlockingRead) {p : Port} {n : ℕ}
    (h : c.reads = some (p, n)) : p ≠ .nonBlocking := by
  rintro rfl
  cases c with
  | enqueueReadBuffer memId offset cb blockingRead =>
      have hzero : blockingRead = 0 := not_not.1 hc
      simp [Call.reads, hzero] at h
  | _ => simp [Call.reads] at h

/-- The node decodes the call from its bytes and replies as the call expects. -/
structure Invocation.Answered (c : Invocation) (r : Request) : Prop where
  yields : Yields nextRequest c.bytes (.ok r)
  replies : r.replies = c.call.reads.toList
  sends : r.command.bind QueuedCommand.sends = c.call.catches.map (· % 2 ^ 32)
  ports : ∀ x ∈ c.call.reads, x.1 ≠ .nonBlocking

/-- A framed call that is no blocking read, and has not exited the client. -/
lemma Call.Framed.answered {c : Invocation} {sent : Sent} (h : c.call.Framed)
    (hc : ¬ c.call.BlockingRead) (hsent : c.sent = some sent) (hexited : sent.exited = false) :
    c.bytes = sent.bytes ∧ ∃ r, c.Answered r := by
  obtain ⟨sent', r, hsent', hdecodes, hyields⟩ := h.read
  rw [hsent, Option.some.injEq] at hsent'
  subst hsent'
  rw [hexited] at hyields
  have hbytes : c.bytes = sent.bytes := by
    rw [Invocation.bytes, hsent]
    rfl
  refine ⟨hbytes, r, ?_, hdecodes.replies_eq hc, hdecodes.sends_eq, fun x => Call.reads_port hc⟩
  rw [hbytes]
  exact hyields

/-! ## The books of a session -/

/-- The bytes of messages to a socket. -/
def due (request : ℕ) (l : List (Port × ℕ)) (p : Port) : List ℕ :=
  l.flatMap fun x => if x.1 = p then List.replicate (x.2 % 2 ^ 32) request else []

namespace RunTurn

/-- The bytes `Run` has yet to send. -/
def owes (p : Port) : RunTurn → List ℕ
  | recv => []
  | block request _ replies => due request replies p
  | send request replies => due request replies p

/-- The request whose command `Run` waits for. -/
def blocked : RunTurn → List ℕ
  | block request _ _ => [request]
  | _ => []

/-- `Run` is in the wait for the command of the request. -/
def waitsFor (request : ℕ) : RunTurn → Bool
  | block waiter waiting _ => waiting && waiter == request
  | _ => false

/-- The sockets `Run` has yet to send on. -/
def ports : RunTurn → List Port
  | recv => []
  | block _ _ replies => replies.map Prod.fst
  | send _ replies => replies.map Prod.fst

end RunTurn

lemma RunTurn.eq_block_of_waitsFor {request : ℕ} {run : RunTurn}
    (h : run.waitsFor request = true) : ∃ replies, run = .block request true replies := by
  cases run with
  | block waiter waiting replies =>
      obtain ⟨rfl, hwaiter⟩ : waiting = true ∧ waiter = request := by simpa [waitsFor] using h
      exact ⟨replies, by rw [hwaiter]⟩
  | _ => cases h

/-- The bytes the caller's thread waits for. -/
def owed (reading : Option (ℕ × Port × ℕ)) (p : Port) : List ℕ :=
  match reading with
  | some (request, q, left) => if q = p then List.replicate left request else []
  | none => []

lemma owed_some (request left : ℕ) (q p : Port) :
    owed (some (request, q, left)) p = if q = p then List.replicate left request else [] := rfl

/-- The reads that will be sent on the non-blocking socket, with their lengths. -/
def toSend (queue : List (ℕ × QueuedCommand)) (pending : List (ℕ × Invocation)) : List (ℕ × ℕ) :=
  (queue.flatMap fun x => (x.2.sends.map fun n => (x.1, n)).toList) ++
    pending.flatMap fun x => (x.2.call.catches.map fun cb => (x.1, cb % 2 ^ 32)).toList

/-- The requests on the main socket, with their numbers. -/
structure Requests (made served : ℕ) (inbox : List UInt8) (pending : List (ℕ × Invocation)) :
    Prop where
  count : made = served + pending.length
  numbers : pending.map Prod.fst = List.range' served pending.length
  bytes : inbox = pending.flatMap fun x => x.2.bytes
  answered : ∀ x ∈ pending, ∃ r, x.2.Answered r

/-- `Run` waits for the one command of the queue that will wake it. -/
structure Waking (queue : List (ℕ × QueuedCommand)) (run : RunTurn) : Prop where
  blocked : (queue.filter fun x => x.2.wakes).map Prod.fst = run.blocked
  finish : ∀ request, (request, .finish) ∈ queue → ∃ replies, run = .block request true replies

/-- On the main and the finish socket the caller waits for just the bytes that are on their way,
that `Run` is about to send, and that it will send for the requests it has not read. -/
structure Ledger (wire : Port → List ℕ) (run : RunTurn) (reading : Option (ℕ × Port × ℕ))
    (pending : List (ℕ × Invocation)) : Prop where
  caller : ∀ x ∈ reading, x.2.1 ≠ .nonBlocking
  ports : .nonBlocking ∉ run.ports
  balance : ∀ p, p ≠ .nonBlocking →
    wire p ++ run.owes p ++ (pending.flatMap fun x => due x.1 x.2.call.reads.toList p) =
      owed reading p

/-- On the non-blocking socket the oldest catcher waits for the bytes on their way, and the others
for the reads to come. -/
def Caught (awaiting : Option ℕ) (acks : ℕ) (bytes : List ℕ) (catchers todo : List (ℕ × ℕ)) :
    Prop :=
  match awaiting with
  | none => acks = 0 ∧ bytes = [] ∧ catchers = todo
  | some request =>
    acks = 1 ∧ bytes = [] ∧ catchers = todo ∨
      acks = 0 ∧ ∃ left, 0 < left ∧ bytes = List.replicate left request ∧
        catchers = (request, left) :: todo

/-- The books of a session whose requests are `pending`. -/
structure Books (s : Session) (pending : List (ℕ × Invocation)) : Prop where
  requests : Requests s.made s.served s.inbox pending
  waking : Waking s.queue s.run
  ledger : Ledger s.wire s.run s.reading pending
  caught : Caught s.awaiting s.acks (s.wire .nonBlocking) s.catchers (toSend s.queue pending)

variable {s s' : Session} {pending : List (ℕ × Invocation)}

/-- The requests of the bytes the node puts on a socket. -/
def writtenOn (p : Port) (s : Session) : SessionStep → List ℕ
  | .reply =>
    match s.run with
    | .send request ((q, n) :: _) => if q = p then List.replicate (n % 2 ^ 32) request else []
    | _ => []
  | .exec =>
    match s.awaiting, s.queue with
    | none, (request, .read false cb) :: _ =>
      if p = .nonBlocking then List.replicate (cb % 2 ^ 32) request else []
    | _, _ => []
  | _ => []

/-- The calls that get the bytes the client takes from a socket. -/
def readOn (p : Port) (s : Session) : SessionStep → List ℕ
  | .recv n =>
    match s.reading with
    | some (request, q, left) =>
      if q = p ∧ ¬ s.recvFails q left then List.replicate n request else []
    | none => []
  | .catcher i n =>
    match s.catchers[i]? with
    | some (request, left) =>
      if p = .nonBlocking ∧ ¬ s.recvFails .nonBlocking left then List.replicate n request else []
    | none => []
  | _ => []

/-- What keeps the replies in order: requests are framed, nobody blocks on a read, a thread waits
for its command before it is executed, and the catchers take turns. -/
def Orderly (s : Session) : SessionStep → Prop
  | .call c => c.call.Framed ∧ ¬ c.call.BlockingRead
  | .catcher i _ => ∀ x ∈ s.catchers[i]?, 0 < i → s.recvFails .nonBlocking x.2
  | .exec => ∀ x ∈ s.queue.head?, x.2.wakes → x.2 ≠ .finish → s.run.waitsFor x.1 = true
  | _ => True

instance (s : Session) (l : SessionStep) : Decidable (Orderly s l) :=
  match l with
  | .call _ => inferInstanceAs (Decidable (_ ∧ ¬ _))
  | .catcher i _ => inferInstanceAs (Decidable (∀ x ∈ s.catchers[i]?, _))
  | .exec => inferInstanceAs (Decidable (∀ x ∈ s.queue.head?, _))
  | .recv _ | .serve | .wait | .reply | .ack => isTrue trivial

/-! ## The client's steps keep the books -/

lemma Requests.push {made served : ℕ} {inbox : List UInt8} {c : Invocation} {r : Request}
    (h : Requests made served inbox pending) (hc : c.Answered r) :
    Requests (made + 1) served (inbox ++ c.bytes) (pending ++ [(made, c)]) where
  count := by
    have hcount := h.count
    rw [List.length_append, List.length_singleton]
    omega
  numbers := by
    rw [List.map_append, List.length_append, h.numbers, List.length_singleton,
      List.range'_1_concat, ← h.count]
    rfl
  bytes := by
    rw [List.flatMap_append, ← h.bytes, List.flatMap_singleton]
  answered := by
    intro x hx
    rcases List.mem_append.1 hx with hx | hx
    · exact h.answered x hx
    · rw [List.mem_singleton.1 hx]
      exact ⟨r, hc⟩

lemma Ledger.push {wire : Port → List ℕ} {run : RunTurn} {c : Invocation} {r : Request} (n : ℕ)
    (h : Ledger wire run none pending) (hc : c.Answered r) :
    Ledger wire run (c.call.reads.map fun x => (n, x.1, x.2 % 2 ^ 32)) (pending ++ [(n, c)]) where
  caller := by
    intro x hx
    obtain ⟨y, hy, rfl⟩ := Option.map_eq_some_iff.1 (Option.mem_def.1 hx)
    exact hc.ports y hy
  ports := h.ports
  balance := by
    intro p hp
    have hbalance := h.balance p hp
    rw [List.flatMap_append, ← List.append_assoc, hbalance, List.flatMap_singleton]
    cases hreads : c.call.reads with
    | none => rfl
    | some x => simp [due, owed]

lemma Caught.push {awaiting : Option ℕ} {acks : ℕ} {bytes : List ℕ} {catchers todo : List (ℕ × ℕ)}
    (h : Caught awaiting acks bytes catchers todo) (more : List (ℕ × ℕ)) :
    Caught awaiting acks bytes (catchers ++ more) (todo ++ more) := by
  unfold Caught at h ⊢
  split at h
  · obtain ⟨hacks, hbytes, rfl⟩ := h
    exact ⟨hacks, hbytes, rfl⟩
  · rcases h with ⟨hacks, hbytes, rfl⟩ | ⟨hacks, left, hleft, hbytes, rfl⟩
    · exact Or.inl ⟨hacks, hbytes, rfl⟩
    · exact Or.inr ⟨hacks, left, hleft, hbytes, rfl⟩

/-- A request joins the ones the node has not read, and its caller waits for the reply. -/
lemma Books.call {c : Invocation} (h : Books s pending) (hc : c.call.Framed)
    (hblocking : ¬ c.call.BlockingRead) (hstep : s.call c = some s') :
    (∃ pending, Books s' pending) ∧ s'.wire = s.wire := by
  unfold Session.call at hstep
  split at hstep
  swap
  · cases hstep
  rename_i sent hreading hsent
  split at hstep
  · cases hstep
    exact ⟨⟨pending, ⟨h.requests, h.waking, h.ledger, h.caught⟩⟩, rfl⟩
  · rename_i hexited
    obtain ⟨hbytes, r, hanswered⟩ := hc.answered hblocking hsent (by simpa using hexited)
    cases hstep
    have hledger := h.ledger
    rw [hreading] at hledger
    refine ⟨⟨pending ++ [(s.made, c)], ?_, h.waking, hledger.push s.made hanswered, ?_⟩, rfl⟩
    · have hrequests := h.requests.push hanswered
      rw [hbytes] at hrequests
      exact hrequests
    · have hcaught := h.caught.push (c.call.catches.map fun cb => (s.made, cb % 2 ^ 32)).toList
      have hsend : toSend s.queue (pending ++ [(s.made, c)]) = toSend s.queue pending ++
          (c.call.catches.map fun cb => (s.made, cb % 2 ^ 32)).toList := by
        rw [toSend, toSend, List.flatMap_append, List.append_assoc, List.flatMap_singleton]
      rw [← hsend] at hcaught
      exact hcaught

/-- What is left when bytes that are all of one kind are taken from the front. -/
lemma take_drop_of_append_eq_replicate {l m : List ℕ} {left x n : ℕ}
    (h : l ++ m = List.replicate left x) (hn : n ≤ l.length) :
    l.take n = List.replicate n x ∧ l.drop n ++ m = List.replicate (left - n) x := by
  have htake := congrArg (List.take n) h
  have hdrop := congrArg (List.drop n) h
  have hlength := congrArg List.length h
  rw [List.length_append, List.length_replicate] at hlength
  rw [List.take_append_of_le_length hn, List.take_replicate, Nat.min_eq_left (by omega)] at htake
  rw [List.drop_append_of_le_length hn, List.drop_replicate] at hdrop
  exact ⟨htake, hdrop⟩

lemma Ledger.recv {wire : Port → List ℕ} {run : RunTurn} {request left n : ℕ} {q : Port}
    (h : Ledger wire run (some (request, q, left)) pending) (hn : n ≤ (wire q).length) :
    (wire q).take n = List.replicate n request ∧
      Ledger (Function.update wire q ((wire q).drop n)) run
        (if n = left then none else some (request, q, left - n)) pending := by
  have hq : q ≠ .nonBlocking := h.caller _ rfl
  have hbalance := h.balance q hq
  rw [owed_some, if_pos rfl, List.append_assoc] at hbalance
  obtain ⟨htake, hdrop⟩ := take_drop_of_append_eq_replicate hbalance hn
  refine ⟨htake, ?_, h.ports, fun p hp => ?_⟩
  · intro x hx
    split at hx
    · cases hx
    · rw [← Option.mem_some.1 hx]
      exact hq
  · have howed : owed (if n = left then none else some (request, q, left - n)) p =
        if q = p then List.replicate (left - n) request else [] := by
      split
      · rename_i hall
        rw [hall, Nat.sub_self]
        exact (ite_self _).symm
      · rfl
    rw [howed]
    by_cases hpq : q = p
    · subst hpq
      rw [Function.update_self, if_pos rfl, List.append_assoc]
      exact hdrop
    · have hother := h.balance p hp
      rw [owed_some, if_neg hpq] at hother
      rw [Function.update_of_ne (Ne.symm hpq), if_neg hpq]
      exact hother

/-- Taking bytes off a socket takes them from nowhere else. -/
lemma append_update_drop (wire : Port → List ℕ) {q : Port} {n request : ℕ}
    (htake : (wire q).take n = List.replicate n request) (p : Port) :
    (if q = p then List.replicate n request else []) ++
      Function.update wire q ((wire q).drop n) p = wire p := by
  by_cases hpq : q = p
  · subst hpq
    rw [if_pos rfl, Function.update_self, ← htake, List.take_append_drop]
  · rw [if_neg hpq, Function.update_of_ne (Ne.symm hpq), List.nil_append]

/-- The caller's thread gets bytes of its own reply. -/
lemma Books.recv {n : ℕ} (h : Books s pending) (hstep : s.recv n = some s') :
    Books s' pending ∧ ∀ p, readOn p s (.recv n) ++ s'.wire p = s.wire p := by
  unfold Session.recv at hstep
  split at hstep
  swap
  · cases hstep
  rename_i request q left hreading
  split at hstep
  · rename_i hfails
    cases hstep
    refine ⟨⟨h.requests, h.waking, h.ledger, h.caught⟩, fun p => ?_⟩
    simp [readOn, hreading, hfails]
  rename_i hfails
  split at hstep
  swap
  · cases hstep
  rename_i hn
  cases hstep
  have hledger := h.ledger
  rw [hreading] at hledger
  have hq : q ≠ .nonBlocking := hledger.caller _ rfl
  obtain ⟨htake, hledger'⟩ := hledger.recv hn.2.2
  refine ⟨⟨h.requests, h.waking, hledger', ?_⟩, fun p => ?_⟩
  · have hsame : Function.update s.wire q ((s.wire q).drop n) .nonBlocking =
        s.wire .nonBlocking := Function.update_of_ne (Ne.symm hq) _ _
    have hcaught := h.caught
    rw [← hsame] at hcaught
    exact hcaught
  · have hread : readOn p s (.recv n) = if q = p then List.replicate n request else [] := by
      simp [readOn, hreading, hfails]
    rw [hread]
    exact append_update_drop s.wire htake p

/-- Bytes on the non-blocking socket are those of the oldest catcher. -/
lemma Caught.recv {awaiting : Option ℕ} {acks : ℕ} {bytes : List ℕ} {rest todo : List (ℕ × ℕ)}
    {request left n : ℕ} (h : Caught awaiting acks bytes ((request, left) :: rest) todo)
    (hpos : 0 < n) (hleft : n ≤ left) (hn : n ≤ bytes.length) :
    bytes.take n = List.replicate n request ∧
      (n = left → Caught awaiting (acks + 1) (bytes.drop n) rest todo) ∧
      (n ≠ left → Caught awaiting acks (bytes.drop n) ((request, left - n) :: rest) todo) := by
  unfold Caught at h ⊢
  split at h
  · obtain ⟨-, rfl, -⟩ := h
    exact absurd hn (Nat.not_le.2 hpos)
  · rcases h with ⟨-, rfl, -⟩ | ⟨hacks, left', -, rfl, hcatchers⟩
    · exact absurd hn (Nat.not_le.2 hpos)
    · obtain ⟨⟨rfl, rfl⟩, rfl⟩ : (request = _ ∧ left = left') ∧ rest = todo := by
        simpa using hcatchers
      refine ⟨?_, fun hall => Or.inl ⟨by omega, ?_, rfl⟩,
        fun hmore => Or.inr ⟨hacks, left - n, by omega, List.drop_replicate .., rfl⟩⟩
      · rw [List.take_replicate, Nat.min_eq_left hleft]
      · rw [List.drop_replicate, hall, Nat.sub_self, List.replicate_zero]

/-- The other sockets do not need the non-blocking one. -/
lemma Ledger.nonBlocking {wire : Port → List ℕ} {run : RunTurn}
    {reading : Option (ℕ × Port × ℕ)} (h : Ledger wire run reading pending) (bytes : List ℕ) :
    Ledger (Function.update wire .nonBlocking bytes) run reading pending where
  caller := h.caller
  ports := h.ports
  balance := by
    intro p hp
    rw [Function.update_of_ne hp]
    exact h.balance p hp

/-- A catcher finds the connection gone, or gets bytes. -/
lemma Session.catcher_inv {i n : ℕ} (h : s.catcher i n = some s') :
    ∃ request left, s.catchers[i]? = some (request, left) ∧
      (s.recvFails .nonBlocking left ∧ s' = { s with exited := true } ∨
        ¬ s.recvFails .nonBlocking left ∧
          (0 < n ∧ n ≤ left ∧ n ≤ (s.wire .nonBlocking).length) ∧
          s' = { s with
            wire := Function.update s.wire .nonBlocking ((s.wire .nonBlocking).drop n)
            catchers := if n = left then s.catchers.eraseIdx i
              else s.catchers.set i (request, left - n)
            acks := if n = left then s.acks + 1 else s.acks }) := by
  unfold Session.catcher at h
  split at h
  · rename_i request left hi
    refine ⟨request, left, hi, ?_⟩
    split at h
    · rename_i hfails
      cases h
      exact Or.inl ⟨hfails, rfl⟩
    · rename_i hfails
      split at h
      · rename_i hn
        refine Or.inr ⟨hfails, hn, ?_⟩
        split at h <;> rename_i hlast <;> cases h
        · rw [if_pos hlast, if_pos hlast]
        · rw [if_neg hlast, if_neg hlast]
      · cases h
  · cases h

/-- The oldest catcher gets bytes of its own read. -/
lemma Books.catcher {i n : ℕ} (h : Books s pending)
    (hfirst : ∀ x ∈ s.catchers[i]?, 0 < i → s.recvFails .nonBlocking x.2)
    (hstep : s.catcher i n = some s') :
    Books s' pending ∧ ∀ p, readOn p s (.catcher i n) ++ s'.wire p = s.wire p := by
  obtain ⟨request, left, hi, ⟨hfails, rfl⟩ | ⟨hfails, ⟨hpos, hleft, hwire⟩, rfl⟩⟩ :=
    Session.catcher_inv hstep
  · refine ⟨⟨h.requests, h.waking, h.ledger, h.caught⟩, fun p => ?_⟩
    simp [readOn, hi, hfails]
  · have hzero : i = 0 := by
      by_contra hpos
      exact hfails (hfirst _ hi (Nat.pos_of_ne_zero hpos))
    subst hzero
    obtain ⟨rest, hcatchers⟩ : ∃ rest, s.catchers = (request, left) :: rest := by
      rw [← List.head?_eq_getElem?] at hi
      exact ⟨_, (List.cons_head?_tail hi).symm⟩
    have hcaught := h.caught
    rw [hcatchers] at hcaught
    obtain ⟨htake, hall, hmore⟩ := hcaught.recv hpos hleft hwire
    have hread : ∀ p, readOn p s (.catcher 0 n) =
        if .nonBlocking = p then List.replicate n request else [] := by
      intro p
      simp [readOn, hi, hfails, eq_comm]
    have hbytes : Function.update s.wire .nonBlocking ((s.wire .nonBlocking).drop n) .nonBlocking =
        (s.wire .nonBlocking).drop n := Function.update_self ..
    refine ⟨⟨h.requests, h.waking, h.ledger.nonBlocking _, ?_⟩, fun p => ?_⟩
    · show Caught s.awaiting (if n = left then s.acks + 1 else s.acks)
        (Function.update s.wire .nonBlocking ((s.wire .nonBlocking).drop n) .nonBlocking)
        (if n = left then s.catchers.eraseIdx 0 else s.catchers.set 0 (request, left - n))
        (toSend s.queue pending)
      rw [hcatchers, hbytes]
      by_cases hlast : n = left
      · rw [if_pos hlast, if_pos hlast]
        exact hall hlast
      · rw [if_neg hlast, if_neg hlast]
        exact hmore hlast
    · rw [hread]
      exact append_update_drop s.wire htake p

/-! ## The node's steps keep the books -/

lemma Books.wait (h : Books s pending) (hstep : s.wait = some s') :
    Books s' pending ∧ s'.wire = s.wire := by
  unfold Session.wait at hstep
  split at hstep
  · rename_i request replies hrun
    cases hstep
    have hwaking := h.waking
    have hledger := h.ledger
    rw [hrun] at hwaking hledger
    refine ⟨⟨h.requests, ⟨hwaking.blocked, fun n hn => ?_⟩,
      ⟨hledger.caller, hledger.ports, hledger.balance⟩, h.caught⟩, rfl⟩
    obtain ⟨replies', hblock⟩ := hwaking.finish n hn
    cases hblock
  · cases hstep

lemma Books.ack (h : Books s pending) (hstep : s.ack = some s') :
    Books s' pending ∧ s'.wire = s.wire := by
  unfold Session.ack at hstep
  split at hstep
  · rename_i request hawaiting
    split at hstep
    · rename_i hacks
      cases hstep
      have hcaught := h.caught
      rw [hawaiting] at hcaught
      refine ⟨⟨h.requests, h.waking, h.ledger, ?_⟩, rfl⟩
      rcases hcaught with ⟨hone, hbytes, hcatchers⟩ | ⟨hnone, -⟩
      · exact ⟨by rw [hone], hbytes, hcatchers⟩
      · omega
    · cases hstep
  · cases hstep

/-- Bytes sent on a socket come behind those on their way. -/
lemma update_append (wire : Port → List ℕ) (q : Port) (bytes : List ℕ) (p : Port) :
    Function.update wire q (wire q ++ bytes) p = wire p ++ if q = p then bytes else [] := by
  by_cases hpq : q = p
  · subst hpq
    rw [Function.update_self, if_pos rfl]
  · rw [Function.update_of_ne (Ne.symm hpq), if_neg hpq, List.append_nil]

lemma Ledger.reply {wire : Port → List ℕ} {reading : Option (ℕ × Port × ℕ)} {request n : ℕ}
    {q : Port} {replies : List (Port × ℕ)}
    (h : Ledger wire (.send request ((q, n) :: replies)) reading pending) :
    Ledger (Function.update wire q (wire q ++ List.replicate (n % 2 ^ 32) request))
      (.send request replies) reading pending where
  caller := h.caller
  ports := fun hmem => h.ports (List.mem_cons_of_mem _ hmem)
  balance := by
    intro p hp
    have hbalance := h.balance p hp
    have hdue : RunTurn.owes p (.send request ((q, n) :: replies)) =
        (if q = p then List.replicate (n % 2 ^ 32) request else []) ++ due request replies p := by
      rw [RunTurn.owes, due, List.flatMap_cons]
      rfl
    rw [hdue, ← List.append_assoc] at hbalance
    rw [update_append]
    exact hbalance

/-- While `Run` waits for nothing, no command will wake it. -/
lemma Waking.idle {queue : List (ℕ × QueuedCommand)} {run run' : RunTurn} (h : Waking queue run)
    (hrun : run.blocked = []) (hrun' : run'.blocked = []) : Waking queue run' where
  blocked := by rw [h.blocked, hrun, hrun']
  finish := by
    intro m hm
    obtain ⟨replies, hblock⟩ := h.finish m hm
    rw [hblock] at hrun
    cases hrun

lemma Books.reply (h : Books s pending) (hstep : s.reply = some s') :
    Books s' pending ∧ ∀ p, s'.wire p = s.wire p ++ writtenOn p s .reply := by
  unfold Session.reply at hstep
  split at hstep
  · rename_i request hrun
    cases hstep
    have hledger := h.ledger
    have hwaking := h.waking
    rw [hrun] at hledger hwaking
    refine ⟨⟨h.requests, hwaking.idle rfl rfl,
      ⟨hledger.caller, List.not_mem_nil, hledger.balance⟩, h.caught⟩, fun p => ?_⟩
    simp [writtenOn, hrun]
  · rename_i request q n replies hrun
    have hwritten : ∀ p, writtenOn p s .reply =
        if q = p then List.replicate (n % 2 ^ 32) request else [] := by
      intro p
      simp only [writtenOn, hrun]
    split at hstep
    · rename_i hzero
      cases hstep
      refine ⟨⟨h.requests, h.waking, h.ledger, h.caught⟩, fun p => ?_⟩
      rw [hwritten, hzero, List.replicate_zero, ite_self, List.append_nil]
    · cases hstep
      have hledger := h.ledger
      have hwaking := h.waking
      rw [hrun] at hledger hwaking
      have hq : q ≠ .nonBlocking := by
        rintro rfl
        exact hledger.ports (List.mem_cons_self ..)
      refine ⟨⟨h.requests, hwaking.idle rfl rfl, hledger.reply, ?_⟩, fun p => ?_⟩
      · have hsame : Function.update s.wire q (s.wire q ++ List.replicate (n % 2 ^ 32) request)
            .nonBlocking = s.wire .nonBlocking := Function.update_of_ne (Ne.symm hq) _ _
        have hcaught := h.caught
        rw [← hsame] at hcaught
        exact hcaught
      · rw [hwritten]
        exact update_append s.wire q _ p
  · cases hstep

lemma Requests.next {made served n : ℕ} {inbox : List UInt8} {c : Invocation}
    (h : Requests made served inbox ((n, c) :: pending)) :
    n = served ∧ ∃ r, c.Answered r ∧
      nextRequest inbox = (.ok r, pending.flatMap fun x => x.2.bytes) ∧
      Requests made (served + 1) (pending.flatMap fun x => x.2.bytes) pending := by
  have hnumbers := h.numbers
  rw [List.map_cons, List.length_cons, List.range'_succ, List.cons.injEq] at hnumbers
  obtain ⟨r, hr⟩ := h.answered _ (List.mem_cons_self ..)
  refine ⟨hnumbers.1, r, hr, ?_, ?_, hnumbers.2, rfl,
    fun x hx => h.answered x (List.mem_cons_of_mem _ hx)⟩
  · rw [h.bytes, List.flatMap_cons]
    exact hr.yields _
  · have hcount := h.count
    rw [List.length_cons] at hcount
    omega

lemma Request.owes_turn (n : ℕ) (r : Request) (p : Port) :
    (r.turn n).owes p = due n r.replies p := by
  unfold Request.turn
  split
  · rfl
  · split <;> rfl

lemma Request.ports_turn (n : ℕ) (r : Request) : (r.turn n).ports = r.replies.map Prod.fst := by
  unfold Request.turn
  split
  · rfl
  · split <;> rfl

lemma Waking.serve {queue : List (ℕ × QueuedCommand)} (h : Waking queue .recv) (n : ℕ)
    (r : Request) :
    Waking (queue ++ (r.command.map fun command => (n, command)).toList) (r.turn n) where
  blocked := by
    have hblocked := h.blocked
    rw [List.filter_append, List.map_append, hblocked]
    unfold Request.turn
    cases r.command with
    | none => rfl
    | some command =>
        cases hwakes : command.wakes with
        | true => simp [hwakes, RunTurn.blocked]
        | false => simp [hwakes, RunTurn.blocked]
  finish := by
    intro m hm
    rcases List.mem_append.1 hm with hm | hm
    · obtain ⟨replies, hblock⟩ := h.finish m hm
      cases hblock
    · have hcommand : r.command = some .finish ∧ n = m := by
        cases hc : r.command with
        | none => simp [hc] at hm
        | some command => simpa [hc, eq_comm, and_comm] using hm
      obtain ⟨hcommand, rfl⟩ := hcommand
      refine ⟨r.replies, ?_⟩
      simp [Request.turn, hcommand, QueuedCommand.wakes]

lemma Ledger.serve {wire : Port → List ℕ} {reading : Option (ℕ × Port × ℕ)} {n : ℕ}
    {c : Invocation} {r : Request} (h : Ledger wire .recv reading ((n, c) :: pending))
    (hr : c.Answered r) : Ledger wire (r.turn n) reading pending where
  caller := h.caller
  ports := by
    rw [Request.ports_turn, hr.replies]
    intro hmem
    obtain ⟨x, hx, hport⟩ := List.mem_map.1 hmem
    exact hr.ports x (Option.mem_toList.1 hx) hport
  balance := by
    intro p hp
    have hbalance := h.balance p hp
    have hrecv : RunTurn.recv.owes p = [] := rfl
    rw [hrecv, List.append_nil, List.flatMap_cons, ← List.append_assoc] at hbalance
    rw [Request.owes_turn, hr.replies]
    exact hbalance

lemma Books.serve (h : Books s pending) (hstep : s.serve = some s') :
    (∃ pending, Books s' pending) ∧ s'.wire = s.wire := by
  unfold Session.serve at hstep
  split at hstep
  swap
  · cases hstep
  rename_i hrun
  have hrequests := h.requests
  have hwaking := h.waking
  have hledger := h.ledger
  have hcaught := h.caught
  rw [hrun] at hwaking hledger
  cases pending with
  | nil =>
      have hwait : nextRequest s.inbox = (.error .wait, []) := by
        rw [hrequests.bytes]
        rfl
      rw [hwait] at hstep
      cases hstep
  | cons x rest =>
      obtain ⟨n, c⟩ := x
      obtain ⟨rfl, r, hr, hnext, hrest⟩ := hrequests.next
      rw [hnext] at hstep
      cases hstep
      refine ⟨⟨rest, hrest, hwaking.serve _ r, hledger.serve hr, ?_⟩, rfl⟩
      have hsend : toSend (s.queue ++ (r.command.map fun command => (s.served, command)).toList)
          rest = toSend s.queue ((s.served, c) :: rest) := by
        have hone : ((r.command.map fun command => (s.served, command)).toList.flatMap fun x =>
            (x.2.sends.map fun n => (x.1, n)).toList) =
              (c.call.catches.map fun cb => (s.served, cb % 2 ^ 32)).toList := by
          have hsends := congrArg (fun o => (o.map fun n => (s.served, n)).toList) hr.sends
          rw [Option.map_map] at hsends
          rw [show (fun cb => (s.served, cb % 2 ^ 32)) = (fun n => (s.served, n)) ∘ (· % 2 ^ 32)
            from rfl, ← hsends]
          cases r.command <;> simp
        rw [toSend, toSend, List.flatMap_append, List.flatMap_cons, hone, List.append_assoc]
      rw [← hsend] at hcaught
      exact hcaught

lemma toSend_cons (request : ℕ) (command : QueuedCommand) (queue : List (ℕ × QueuedCommand))
    (pending : List (ℕ × Invocation)) :
    toSend ((request, command) :: queue) pending =
      (command.sends.map fun n => (request, n)).toList ++ toSend queue pending := by
  rw [toSend, toSend, List.flatMap_cons, List.append_assoc]

lemma QueuedCommand.sends_of_wakes {command : QueuedCommand} (h : command.wakes = true) :
    command.sends = none := by
  cases command with
  | read blockingRead cb =>
      change blockingRead = true at h
      rw [h]
      rfl
  | _ => rfl

/-- The command that wakes `Run` was the only one. -/
lemma Waking.wake {queue : List (ℕ × QueuedCommand)} {request : ℕ} {command : QueuedCommand}
    {replies : List (Port × ℕ)}
    (h : Waking ((request, command) :: queue) (.block request true replies))
    (hwakes : command.wakes = true) : Waking queue (.send request replies) := by
  have hblocked := h.blocked
  rw [List.filter_cons_of_pos (by exact hwakes), List.map_cons] at hblocked
  have hnone : (queue.filter fun x => x.2.wakes).map Prod.fst = [] := (List.cons.inj hblocked).2
  refine ⟨hnone, fun m hm => ?_⟩
  have hmem : (m, QueuedCommand.finish) ∈ queue.filter fun x => x.2.wakes :=
    List.mem_filter.2 ⟨hm, rfl⟩
  rw [List.map_eq_nil_iff.1 hnone] at hmem
  cases hmem

/-- A command that wakes nobody is gone. -/
lemma Waking.pop {queue : List (ℕ × QueuedCommand)} {run : RunTurn} {request : ℕ}
    {command : QueuedCommand} (h : Waking ((request, command) :: queue) run)
    (hwakes : ¬ command.wakes = true) : Waking queue run where
  blocked := by
    have hblocked := h.blocked
    rw [List.filter_cons_of_neg (by exact hwakes)] at hblocked
    exact hblocked
  finish := fun m hm => h.finish m (List.mem_cons_of_mem _ hm)

lemma writtenOn_exec {request : ℕ} {command : QueuedCommand} {queue : List (ℕ × QueuedCommand)}
    (hawaiting : s.awaiting = none) (hqueue : s.queue = (request, command) :: queue) (p : Port) :
    writtenOn p s .exec =
      if .nonBlocking = p then command.sends.elim [] fun n => List.replicate n request else [] := by
  simp only [writtenOn, hawaiting, hqueue]
  cases command with
  | read blockingRead cb => cases blockingRead <;> simp [QueuedCommand.sends, eq_comm]
  | _ => simp [QueuedCommand.sends]

section Exec

variable {request : ℕ} {command : QueuedCommand} {queue : List (ℕ × QueuedCommand)}

/-- `Run` waits for the command and goes on. -/
lemma Books.exec_wakes (h : Books s pending) (hawaiting : s.awaiting = none)
    (hqueue : s.queue = (request, command) :: queue) (hwakes : command.wakes = true)
    (hready : command ≠ .finish → s.run.waitsFor request = true) :
    Books ({ s with queue := queue }.wake request) pending ∧
      ∀ p, ({ s with queue := queue }.wake request).wire p = s.wire p ++ writtenOn p s .exec := by
  have hwaking := h.waking
  have hcaught := h.caught
  have hwritten := writtenOn_exec hawaiting hqueue
  rw [hqueue] at hwaking hcaught
  rw [toSend_cons] at hcaught
  obtain ⟨replies, hrun⟩ : ∃ replies, s.run = .block request true replies := by
    by_cases hfinish : command = .finish
    · subst hfinish
      exact hwaking.finish request (List.mem_cons_self ..)
    · exact RunTurn.eq_block_of_waitsFor (hready hfinish)
  have hledger := h.ledger
  rw [hrun] at hwaking hledger
  rw [QueuedCommand.sends_of_wakes hwakes] at hcaught hwritten
  have hwake : ({ s with queue := queue } : Session).wake request =
      { s with queue := queue, run := .send request replies } := by
    simp only [Session.wake, hrun, if_true]
  rw [hwake]
  refine ⟨⟨h.requests, hwaking.wake hwakes,
    ⟨hledger.caller, hledger.ports, hledger.balance⟩, hcaught⟩, fun p => ?_⟩
  rw [hwritten, Option.elim_none, ite_self, List.append_nil]

/-- A read that does not block sends what it has read. -/
lemma Books.exec_read {cb : ℕ} (h : Books s pending) (hawaiting : s.awaiting = none)
    (hqueue : s.queue = (request, .read false cb) :: queue) (hpos : cb % 2 ^ 32 ≠ 0) :
    Books ({ s with queue := queue, awaiting := some request }.sockSend .nonBlocking request cb)
        pending ∧
      ∀ p, ({ s with queue := queue, awaiting := some request }.sockSend .nonBlocking request
        cb).wire p = s.wire p ++ writtenOn p s .exec := by
  have hwaking := h.waking
  have hcaught := h.caught
  have hwritten := writtenOn_exec hawaiting hqueue
  have hsends : (QueuedCommand.read false cb).sends = some (cb % 2 ^ 32) := rfl
  rw [hqueue] at hwaking hcaught
  rw [toSend_cons, hawaiting, hsends] at hcaught
  rw [hsends, Option.elim_some] at hwritten
  refine ⟨⟨h.requests, hwaking.pop Bool.false_ne_true, h.ledger.nonBlocking _, ?_⟩, fun p => ?_⟩
  · obtain ⟨hacks, hbytes, hcatchers⟩ := hcaught
    refine Or.inr ⟨hacks, cb % 2 ^ 32, Nat.pos_of_ne_zero hpos, ?_, hcatchers⟩
    exact (update_append s.wire .nonBlocking _ .nonBlocking).trans
      (by rw [hbytes, if_pos rfl, List.nil_append])
  · rw [hwritten]
    exact update_append s.wire .nonBlocking _ p

end Exec

lemma Books.exec (h : Books s pending)
    (hready : ∀ x ∈ s.queue.head?, x.2.wakes → x.2 ≠ .finish → s.run.waitsFor x.1 = true)
    (hstep : s.exec = some s') :
    Books s' pending ∧ ∀ p, s'.wire p = s.wire p ++ writtenOn p s .exec := by
  unfold Session.exec at hstep
  split at hstep
  swap
  · cases hstep
  rename_i request command queue hawaiting hqueue
  have hwritten := writtenOn_exec hawaiting hqueue
  split at hstep
  · rename_i hwakes
    cases hstep
    refine h.exec_wakes hawaiting hqueue hwakes (hready (request, command) ?_ hwakes)
    rw [hqueue]
    rfl
  rename_i hwakes
  split at hstep
  · rename_i blockingRead cb
    have hfalse : blockingRead = false := by simpa [QueuedCommand.wakes] using hwakes
    subst hfalse
    split at hstep
    · rename_i hzero
      cases hstep
      refine ⟨⟨h.requests, h.waking, h.ledger, h.caught⟩, fun p => ?_⟩
      have hsends : (QueuedCommand.read false cb).sends = some (cb % 2 ^ 32) := rfl
      rw [hwritten, hsends, Option.elim_some, hzero, List.replicate_zero, ite_self,
        List.append_nil]
    · rename_i hpos
      cases hstep
      exact h.exec_read hawaiting hqueue hpos
  · rename_i hread
    have hsends : command.sends = none := by
      cases command with
      | read blockingRead cb => exact (hread blockingRead cb rfl).elim
      | _ => rfl
    have hwaking := h.waking
    have hcaught := h.caught
    rw [hqueue] at hwaking hcaught
    rw [toSend_cons, hsends] at hcaught
    cases hstep
    refine ⟨⟨h.requests, hwaking.pop hwakes, h.ledger, hcaught⟩, fun p => ?_⟩
    rw [hwritten, hsends, Option.elim_none, ite_self, List.append_nil]

/-! ## Runs -/

/-- One step keeps the books, and the bytes of every socket. -/
lemma Books.step {l : SessionStep} (h : Books s pending) (hl : Orderly s l)
    (hstep : session.step s l = some s') :
    (∃ pending, Books s' pending) ∧
      ∀ p, readOn p s l ++ s'.wire p = s.wire p ++ writtenOn p s l := by
  have hmove : s.move l = some s' := by
    simp only [session] at hstep
    split at hstep
    · cases hstep
    · exact hstep
  cases l with
  | call c =>
      obtain ⟨hbooks, hwire⟩ := h.call hl.1 hl.2 hmove
      exact ⟨hbooks, fun p => by simp [readOn, writtenOn, hwire]⟩
  | recv n =>
      obtain ⟨hbooks, hwire⟩ := h.recv hmove
      exact ⟨⟨pending, hbooks⟩, fun p => by simp [writtenOn, hwire]⟩
  | catcher i n =>
      obtain ⟨hbooks, hwire⟩ := h.catcher hl hmove
      exact ⟨⟨pending, hbooks⟩, fun p => by simp [writtenOn, hwire]⟩
  | serve =>
      obtain ⟨hbooks, hwire⟩ := h.serve hmove
      exact ⟨hbooks, fun p => by simp [readOn, writtenOn, hwire]⟩
  | wait =>
      obtain ⟨hbooks, hwire⟩ := h.wait hmove
      exact ⟨⟨pending, hbooks⟩, fun p => by simp [readOn, writtenOn, hwire]⟩
  | reply =>
      obtain ⟨hbooks, hwire⟩ := h.reply hmove
      exact ⟨⟨pending, hbooks⟩, fun p => by simp [readOn, hwire]⟩
  | exec =>
      obtain ⟨hbooks, hwire⟩ := h.exec hl hmove
      exact ⟨⟨pending, hbooks⟩, fun p => by simp [readOn, hwire]⟩
  | ack =>
      obtain ⟨hbooks, hwire⟩ := h.ack hmove
      exact ⟨⟨pending, hbooks⟩, fun p => by simp [readOn, writtenOn, hwire]⟩

end ElasticFramework
