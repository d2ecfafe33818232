import ElasticFramework.Construction.Clients
import ElasticFramework.Properties.Framing

/-!
# Sessions do not hurt each other

A step in one session leaves the objects and the commands of all others alone (`frame_run`); that
much is due to every `Run` thread having its own vectors.  What sessions share is the process, and
`Clients.Safe` says which steps leave it up: the client makes calls that are framed and transfer
something, what arrives of them does not break off in a payload, OpenCL has no objections, ids are
in range, and what the node sends is delivered.

`ClientSession.Fine` is the invariant.  Its main part is about the bytes `Run` has not read: they
are those of whole calls, one after the other, and then, when the client has gone, of less than a
message. So a `SockRecv` of a handler finds what it wants, and the end of the stream comes in the
loop of `Run`, where it does no harm, after an error or without one.

## Results

`sessions_isolated`, and `broken_off` for a client that closes in the payload of a write.
-/

namespace ElasticFramework

open Reader

variable {T : Type*}

/-! ## Calls that do no harm -/

/-- The call does not ask for a read of nothing. -/
def Call.ReadsSome : Call → Prop
  | enqueueReadBuffer _ _ cb _ => cb % 2 ^ 32 ≠ 0
  | _ => True

instance : DecidablePred Call.ReadsSome := fun c =>
  match c with
  | .enqueueReadBuffer _ _ _ _ => inferInstanceAs (Decidable (_ ≠ _))
  | .register _ | .createProgramWithSource _ _ | .buildProgram _ _ | .createKernel _ _
  | .enqueueTask _ | .createBuffer _ _ _ | .enqueueWriteBuffer _ _ _ _ _ | .finish
  | .enqueueNDRangeKernel _ _ _ | .enqueueCopyBuffer _ _ _ _ _ | .releaseMemObject _
  | .bullet3ReadResultBack _ | .bullet3WriteToGPU _ _ => isTrue trivial

/-- The call is framed and transfers something. -/
structure Invocation.Whole (c : Invocation) : Prop where
  framed : c.call.Framed
  sends : ∀ sent ∈ c.sent, sent.exited = false
  reads : c.call.ReadsSome

instance : DecidablePred Invocation.Whole := fun c =>
  decidable_of_iff
    (c.call.Framed ∧ (∀ sent ∈ c.sent, sent.exited = false) ∧ c.call.ReadsSome)
    ⟨fun h => ⟨h.1, h.2.1, h.2.2⟩, fun h => ⟨h.1, h.2, h.3⟩⟩

/-- The request is not for a read of nothing. -/
def Request.ReadsSome : Request → Prop
  | enqueueReadBuffer _ _ cb _ => cb % 2 ^ 32 ≠ 0
  | _ => True

lemma Call.Decodes.readsSome {c : Call} {r : Request} (h : c.Decodes r) (hc : c.ReadsSome) :
    r.ReadsSome := by
  cases h with
  | enqueueReadBuffer memId offset cb blockingRead =>
      have hmod : cb % 2 ^ 64 % 2 ^ 32 = cb % 2 ^ 32 :=
        Nat.mod_mod_of_dvd cb (pow_dvd_pow 2 (by decide))
      change cb % 2 ^ 64 % 2 ^ 32 ≠ 0
      rw [hmod]
      exact hc
  | _ => trivial

/-- A round of `Run` takes the call and no more. -/
lemma Invocation.Whole.nextRequest {c : Invocation} (h : c.Whole) :
    ∃ r, r.ReadsSome ∧ ∀ rest, nextRequest (c.bytes ++ rest) = (.ok r, rest) := by
  obtain ⟨sent, r, hsent, hdecodes, hyields⟩ := h.framed.read
  refine ⟨r, hdecodes.readsSome h.reads, fun rest => ?_⟩
  have hrest := hyields rest
  rw [h.sends sent hsent] at hrest
  rw [Invocation.bytes, hsent]
  exact hrest

/-- Less than a message is not a request. -/
lemma nextRequest_short {inbox : List UInt8} (h : inbox.length < kMsgMaxSize) :
    nextRequest inbox = (.error .wait, inbox) :=
  Reader.bind_error (if_neg (by omega))

/-! ## Requests cut short -/

lemma sockRecv_local (n : ℕ) : Local (sockRecv n) := (Local.stop _).ite (Local.next _ _)

lemma recvLengths_local (count : ℕ) : Local (recvLengths count) := by
  induction count with
  | zero => exact Local.pure []
  | succ count ih => exact (sockRecv_local 8).bind fun _ => ih.bind fun _ => Local.pure _

lemma recvStrs_local (lengths : List ℕ) : Local (recvStrs lengths) := by
  induction lengths with
  | nil => exact Local.pure []
  | cons length lengths ih =>
      exact (sockRecv_local length).bind fun _ => ih.bind fun _ => Local.pure _

lemma recvEntries_local (size perMessage : ℕ) (ok : ℕ × ℕ → Bool) (n left : ℕ) :
    Local (recvEntries size perMessage ok n left) := by
  induction n generalizing left with
  | zero => exact Local.pure []
  | succ n ih =>
      refine (sockRecv_local kMsgMaxSize).bind fun buf => ?_
      exact ((ih _).bind fun _ => Local.pure _).ite (Local.stop _)

/-- No handler looks past its request. -/
lemma dispatch_local (buf : List UInt8) : Local (dispatch buf) := by
  unfold dispatch
  split
  · exact Local.pure _
  · refine Local.ite ?_ (Local.stop _)
    exact (recvLengths_local _).bind fun lengths =>
      (recvStrs_local lengths).bind fun _ => Local.pure _
  · exact Local.pure _
  · exact (Local.stop _).ite ((sockRecv_local _).bind fun _ => Local.pure _)
  · exact Local.pure _
  · refine Local.ite ((sockRecv_local _).bind fun _ => ?_) ?_
    · exact (Local.pure _).ite (Local.stop _)
    · exact (Local.pure _).ite (Local.stop _)
  · exact Local.pure _
  · exact (sockRecv_local _).bind fun _ => Local.pure _
  · exact Local.stop _
  · exact Local.pure _
  · refine (recvEntries_local _ _ _ _ _).bind fun _ => ?_
    -- With by-value arguments and without.
    refine Local.ite ((sockRecv_local _).bind fun _ => ?_) ?_
    · exact (recvEntries_local _ _ _ _ _).bind fun _ =>
        (Local.orStop _ _).bind fun _ => Local.pure _
    · exact (recvEntries_local _ _ _ _ _).bind fun _ =>
        (Local.orStop _ _).bind fun _ => Local.pure _
  · exact Local.pure _
  · exact Local.pure _
  · exact Local.stop _

lemma nextRequest_local : Local nextRequest := (Local.next _ _).bind dispatch_local

/-- A round of `Run` needs all the bytes of a call. -/
lemma Invocation.Whole.not_ok_of_take {c : Invocation} (h : c.Whole) {n : ℕ}
    (hn : n < c.bytes.length) {r : Request} {rest : List UInt8} :
    ElasticFramework.nextRequest (c.bytes.take n) ≠ (.ok r, rest) := by
  intro hok
  obtain ⟨r', -, hnext⟩ := h.nextRequest
  have hwhole := hnext []
  have hlater := nextRequest_local _ r rest hok (c.bytes.drop n)
  rw [List.take_append_drop] at hlater
  rw [List.append_nil, hlater] at hwhole
  have hrest : rest ++ c.bytes.drop n = [] := (Prod.ext_iff.1 hwhole).2
  have hdrop := congrArg List.length hrest
  rw [List.length_append, List.length_drop, List.length_nil] at hdrop
  omega

/-- The bytes after the first `n` requests, or after those that are whole. -/
def afterRequests : ℕ → List UInt8 → List UInt8
  | 0, l => l
  | n + 1, l =>
    match nextRequest l with
    | (.ok _, rest) => afterRequests n rest
    | (.error _, _) => l

/-- `Run` is in its loop when it comes to the end of the bytes. -/
def EndsInLoop (l : List UInt8) : Prop := (afterRequests l.length l).length < kMsgMaxSize

instance (l : List UInt8) : Decidable (EndsInLoop l) := inferInstanceAs (Decidable (_ < _))

/-! ## The invariant -/

/-- A handler has no reply of no bytes to send. -/
def RunTurn.SendsSome : RunTurn → Prop
  | .recv => True
  | .block _ _ replies | .send _ replies => ∀ x ∈ replies, x.2 % 2 ^ 32 ≠ 0

/-- What `Run` has not read are whole calls, and less than a message if the client has gone. -/
def WholeCalls (connection : Connection) (inbox : List UInt8) : Prop :=
  ∃ (cs : List Invocation) (tail : List UInt8), (∀ c ∈ cs, c.Whole) ∧
    inbox = cs.flatMap Invocation.bytes ++ tail ∧ tail.length < kMsgMaxSize ∧
    (connection = .open → tail = [])

namespace ClientSession

structure Fine (x : ClientSession) : Prop where
  inbox : WholeCalls x.connection x.inbox
  turn : ∀ turn, x.thread = .serving turn → turn.SendsSome
  queue : ∀ y ∈ x.holdings.queue, y.2.ReadsSome

end ClientSession

def Outcome.Fine : Outcome → Prop
  | goes x => x.Fine
  | ends => False

/-! ## Requests -/

lemma Request.ReadsSome.replies {r : Request} (h : r.ReadsSome) :
    ∀ x ∈ r.replies, x.2 % 2 ^ 32 ≠ 0 := by
  have hmsg : kMsgMaxSize % 2 ^ 32 ≠ 0 := by decide
  cases r with
  | enqueueReadBuffer memId offset cb blockingRead =>
      intro x hx
      simp only [Request.replies] at hx
      split at hx
      · rcases List.mem_pair.1 hx with rfl | rfl
        · exact hmsg
        · exact h
      · cases hx
  | enqueueWriteBuffer memId offset cb blockingWrite data =>
      intro x hx
      simp only [Request.replies] at hx
      split at hx
      · rw [List.mem_singleton.1 hx]
        exact hmsg
      · cases hx
  | register _ | createProgramWithSource _ _ | buildProgram _ | createKernel _ _ | finish _ =>
      intro x hx
      rw [List.mem_singleton.1 hx]
      exact hmsg
  | _ =>
      intro x hx
      cases hx

lemma Request.ReadsSome.turn {r : Request} (h : r.ReadsSome) (request : ℕ) :
    (r.turn request).SendsSome := by
  unfold Request.turn
  split
  · exact h.replies
  · split
    · exact h.replies
    · exact h.replies

/-- A command that sends its data sends some. -/
lemma Request.ReadsSome.command {r : Request} (h : r.ReadsSome) {cb : ℕ} {blockingRead : Bool}
    (hcommand : r.command = some (.read blockingRead cb)) : cb % 2 ^ 32 ≠ 0 := by
  cases r with
  | enqueueReadBuffer memId offset cb' blockingRead' =>
      cases hcommand
      exact h
  | _ => cases hcommand

lemma Holdings.handle_queue {x : Holdings} {request : ℕ} {r : Request}
    (h : ∀ y ∈ x.queue, y.2.ReadsSome) (hr : r.ReadsSome) :
    ∀ y ∈ (x.handle request r).queue, y.2.ReadsSome := by
  unfold Holdings.handle
  split
  · exact h
  · exact h
  · exact h
  · split
    · intro y hy
      rcases List.mem_append.1 hy with hy | hy
      · exact h y hy
      · rw [List.mem_singleton.1 hy]
        exact hr
    · exact h

/-! ## One step -/

namespace WholeCalls

variable {connection : Connection} {inbox : List UInt8}

lemma push {c : Invocation} (h : WholeCalls .open inbox) (hc : c.Whole) :
    WholeCalls connection (inbox ++ c.bytes) := by
  obtain ⟨cs, tail, hcs, rfl, -, htail⟩ := h
  obtain rfl := htail rfl
  refine ⟨cs ++ [c], [], ?_, by simp, by decide, fun _ => rfl⟩
  intro d hd
  rcases List.mem_append.1 hd with hd | hd
  · exact hcs d hd
  · rw [List.mem_singleton.1 hd]
    exact hc

/-- The client goes, with less than a message sent of the next call. -/
lemma pushTail {tail : List UInt8} (h : WholeCalls .open inbox)
    (hlength : tail.length < kMsgMaxSize) (hconnection : connection ≠ .open) :
    WholeCalls connection (inbox ++ tail) := by
  obtain ⟨cs, tail', hcs, rfl, -, htail⟩ := h
  obtain rfl := htail rfl
  exact ⟨cs, tail, hcs, by rw [List.append_nil], hlength, fun hopen => absurd hopen hconnection⟩

/-- What arrives of whole calls is whole calls, when it does not break off in a payload. -/
lemma take (h : WholeCalls .open inbox) {n k : ℕ}
    (hends : (afterRequests k (inbox.take n)).length < kMsgMaxSize)
    (hconnection : connection ≠ .open) : WholeCalls connection (inbox.take n) := by
  obtain ⟨cs, tail, hcs, rfl, -, htail⟩ := h
  obtain rfl := htail rfl
  rw [List.append_nil] at hends ⊢
  clear htail
  induction cs generalizing n k with
  | nil => exact ⟨[], [], hcs, by simp, by decide, fun _ => rfl⟩
  | cons c cs ih =>
      obtain ⟨hc, hcs'⟩ := List.forall_mem_cons.1 hcs
      rw [List.flatMap_cons] at hends ⊢
      by_cases hshort : ((c.bytes ++ cs.flatMap Invocation.bytes).take n).length < kMsgMaxSize
      · exact ⟨[], _, by simp, rfl, hshort, fun hopen => absurd hopen hconnection⟩
      cases k with
      | zero => exact absurd hends hshort
      | succ k =>
          by_cases hn : n < c.bytes.length
          · rw [List.take_append_of_le_length hn.le] at hends hshort
            unfold afterRequests at hends
            split at hends
            · rename_i hok
              exact absurd hok (hc.not_ok_of_take hn)
            · exact absurd hends hshort
          · obtain ⟨r, -, hnext⟩ := hc.nextRequest
            rw [List.take_append, List.take_of_length_le (by omega)] at hends ⊢
            rw [afterRequests, hnext] at hends
            obtain ⟨cs', tail, hcs'', hinbox, hlength, htail⟩ := ih hcs' hends
            refine ⟨c :: cs', tail, List.forall_mem_cons.2 ⟨hc, hcs''⟩, ?_, hlength, htail⟩
            rw [hinbox, List.flatMap_cons, List.append_assoc]

/-- A round of `Run` takes a whole call, or has less than a message. -/
lemma next (h : WholeCalls connection inbox) :
    (∃ r rest, nextRequest inbox = (.ok r, rest) ∧ r.ReadsSome ∧ WholeCalls connection rest) ∨
      nextRequest inbox = (.error .wait, inbox) ∧ inbox.length < kMsgMaxSize := by
  obtain ⟨cs, tail, hcs, rfl, hlength, htail⟩ := h
  cases cs with
  | nil => exact Or.inr ⟨nextRequest_short hlength, hlength⟩
  | cons c cs =>
      obtain ⟨hc, hcs⟩ := List.forall_mem_cons.1 hcs
      obtain ⟨r, hr, hnext⟩ := hc.nextRequest
      refine Or.inl ⟨r, cs.flatMap Invocation.bytes ++ tail, ?_, hr, cs, tail, hcs, rfl, hlength,
        htail⟩
      rw [List.flatMap_cons, List.append_assoc]
      exact hnext _

end WholeCalls

namespace ClientSession

/-- The steps that leave the process up. -/
def Safe (x : ClientSession) : ClientStep → Prop
  | .call c => c.Whole
  | .cut c n => n < kMsgMaxSize ∨ c.Whole ∧ c.bytes.length ≤ n
  | .reset n _ => EndsInLoop (x.inbox.take n)
  | .serve accepted => accepted = true ∧
    ∀ r ∈ (nextRequest x.inbox).1.toOption, x.holdings.InRange r
  | .reply delivered => ¬ x.fails delivered
  | .exec accepted delivered => accepted = true ∧ ¬ x.fails delivered
  | .recvAck => x.connection = .open ∨ 0 < x.acks
  | .close | .acknowledge | .wait | .leave => True

instance (x : ClientSession) : DecidablePred x.Safe := fun l =>
  match l with
  | .call _ => inferInstanceAs (Decidable (Invocation.Whole _))
  | .cut _ _ | .recvAck => inferInstanceAs (Decidable (_ ∨ _))
  | .reset _ _ => inferInstanceAs (Decidable (EndsInLoop _))
  | .serve _ | .exec _ _ => inferInstanceAs (Decidable (_ ∧ _))
  | .reply _ => inferInstanceAs (Decidable (¬ _))
  | .close | .acknowledge | .wait | .leave => isTrue trivial

variable {x : ClientSession} {o : Outcome}

lemma bytes_of_sent {c : Invocation} {sent : Sent} (h : c.sent = some sent) :
    c.bytes = sent.bytes := by
  rw [Invocation.bytes, h]
  rfl

lemma Fine.call (h : x.Fine) {c : Invocation} (hc : c.Whole)
    (hs : x.move (.call c) = some o) : o.Fine := by
  obtain ⟨y, hy, rfl⟩ := Option.map_eq_some_iff.1 hs
  unfold ClientSession.call at hy
  split at hy
  · rename_i sent hopen hsent
    cases hy
    have hinbox := h.inbox
    rw [hopen] at hinbox
    rw [hc.sends sent hsent, if_neg Bool.false_ne_true, ← bytes_of_sent hsent]
    exact ⟨hinbox.push hc, h.turn, h.queue⟩
  · cases hy

lemma Fine.cut (h : x.Fine) {c : Invocation} {n : ℕ} (hc : x.Safe (.cut c n))
    (hs : x.move (.cut c n) = some o) : o.Fine := by
  obtain ⟨y, hy, rfl⟩ := Option.map_eq_some_iff.1 hs
  unfold ClientSession.cut at hy
  split at hy
  · rename_i sent hopen hsent
    cases hy
    have hinbox := h.inbox
    rw [hopen] at hinbox
    rw [← bytes_of_sent hsent]
    refine ⟨?_, h.turn, h.queue⟩
    rcases hc with hn | ⟨hc, hn⟩
    · refine hinbox.pushTail ?_ (by simp)
      rw [List.length_take]
      omega
    · rw [List.take_of_length_le hn]
      exact hinbox.push hc
  · cases hy

lemma Fine.close (h : x.Fine) (hs : x.move .close = some o) : o.Fine := by
  obtain ⟨y, hy, rfl⟩ := Option.map_eq_some_iff.1 hs
  unfold ClientSession.close at hy
  split at hy
  · rename_i hopen
    cases hy
    have hinbox := h.inbox
    rw [hopen] at hinbox
    have htail : WholeCalls .closed (x.inbox ++ []) := hinbox.pushTail (by decide) (by simp)
    rw [List.append_nil] at htail
    exact ⟨htail, h.turn, h.queue⟩
  · cases hy

lemma Fine.reset (h : x.Fine) {n m : ℕ} (hends : EndsInLoop (x.inbox.take n))
    (hs : x.move (.reset n m) = some o) : o.Fine := by
  obtain ⟨y, hy, rfl⟩ := Option.map_eq_some_iff.1 hs
  unfold ClientSession.reset at hy
  split at hy
  · rename_i hopen
    cases hy
    have hinbox := h.inbox
    rw [hopen] at hinbox
    exact ⟨hinbox.take hends (by simp), h.turn, h.queue⟩
  · cases hy

lemma Fine.acknowledge (h : x.Fine) (hs : x.move .acknowledge = some o) : o.Fine := by
  obtain ⟨y, hy, rfl⟩ := Option.map_eq_some_iff.1 hs
  unfold ClientSession.acknowledge at hy
  split at hy
  · cases hy
    exact ⟨h.inbox, h.turn, h.queue⟩
  · cases hy

lemma Fine.serve (h : x.Fine) {accepted : Bool} (hc : x.Safe (.serve accepted))
    (hs : x.move (.serve accepted) = some o) : o.Fine := by
  obtain ⟨haccepted, hrange⟩ := hc
  change x.serve accepted = some o at hs
  unfold ClientSession.serve at hs
  split at hs
  · rcases h.inbox.next with ⟨r, rest, hnext, hr, hrest⟩ | ⟨hnext, hlength⟩
    · rw [hnext] at hs
      have hok : ¬ ((r.callsOpenCL ∧ accepted = false) ∨ ¬ x.holdings.InRange r) := by
        rintro (⟨-, hrefused⟩ | hout)
        · rw [haccepted] at hrefused
          cases hrefused
        · exact hout (hrange r (by rw [hnext]; rfl))
      simp only [if_neg hok, Option.some.injEq] at hs
      subst hs
      refine ⟨hrest, ?_, Holdings.handle_queue h.queue hr⟩
      intro turn hturn
      cases hturn
      exact hr.turn x.served
    · rw [hnext] at hs
      simp only [if_pos hlength] at hs
      split at hs
      · cases hs
      · cases hs
        refine ⟨h.inbox, ?_, h.queue⟩
        intro turn hturn
        cases hturn
  · cases hs

/-- A handler goes on with the replies it has. -/
lemma Fine.goto (h : x.Fine) {turn : RunTurn} (hturn : turn.SendsSome) :
    Outcome.Fine (.goes { x with thread := .serving turn }) := by
  refine ⟨h.inbox, ?_, h.queue⟩
  intro turn' hturn'
  cases hturn'
  exact hturn

lemma Fine.wait (h : x.Fine) (hs : x.move .wait = some o) : o.Fine := by
  change x.wait = some o at hs
  unfold ClientSession.wait at hs
  split at hs
  · rename_i request replies hthread
    cases hs
    have hreplies : ∀ x ∈ replies, x.2 % 2 ^ 32 ≠ 0 := h.turn _ hthread
    exact h.goto hreplies
  · cases hs

lemma Fine.reply (h : x.Fine) {delivered : Bool} (hc : ¬ x.fails delivered)
    (hs : x.move (.reply delivered) = some o) : o.Fine := by
  change x.reply delivered = some o at hs
  unfold ClientSession.reply at hs
  split at hs
  · cases hs
    exact h.goto trivial
  · rename_i hthread
    have hreplies := List.forall_mem_cons.1 (h.turn _ hthread)
    rw [if_neg (not_or.2 ⟨hreplies.1, hc⟩)] at hs
    cases hs
    exact h.goto hreplies.2
  · cases hs

lemma Fine.wake (h : x.Fine) (request : ℕ) : Outcome.Fine (.goes (x.wake request)) := by
  unfold ClientSession.wake
  split
  · rename_i waiter replies hthread
    have hreplies : ∀ x ∈ replies, x.2 % 2 ^ 32 ≠ 0 := h.turn _ hthread
    split
    · exact h.goto hreplies
    · exact h
  · exact h

lemma Fine.exec (h : x.Fine) {accepted delivered : Bool} (hc : x.Safe (.exec accepted delivered))
    (hs : x.move (.exec accepted delivered) = some o) : o.Fine := by
  obtain ⟨rfl, hdelivered⟩ := hc
  change x.exec true delivered = some o at hs
  unfold ClientSession.exec at hs
  split at hs
  · rename_i request r queue hawaiting hqueue
    have hall := h.queue
    rw [hqueue] at hall
    obtain ⟨hr, hrest⟩ := List.forall_mem_cons.1 hall
    -- The session without its oldest command.
    have hpopped : Fine { x with holdings := { x.holdings with queue := queue } } :=
      ⟨h.inbox, h.turn, hrest⟩
    simp only [Bool.true_eq_false, and_false, if_false] at hs
    split at hs
    · rename_i hcommand
      rw [if_neg (not_or.2 ⟨hr.command hcommand, hdelivered⟩)] at hs
      cases hs
      exact ⟨hpopped.inbox, hpopped.turn, hpopped.queue⟩
    · cases hs
      split
      · exact hpopped.wake request
      · exact hpopped
    · cases hs
      exact hpopped
  · cases hs

lemma Fine.recvAck (h : x.Fine) (hc : x.Safe .recvAck) (hs : x.move .recvAck = some o) :
    o.Fine := by
  change x.recvAck = some o at hs
  unfold ClientSession.recvAck at hs
  split at hs
  · split at hs
    · cases hs
      exact ⟨h.inbox, h.turn, h.queue⟩
    · rename_i hacks
      rw [if_pos (hc.resolve_right hacks)] at hs
      cases hs
  · cases hs

lemma Fine.leave (h : x.Fine) (hs : x.move .leave = some o) : o.Fine := by
  change x.leave = some o at hs
  unfold ClientSession.leave at hs
  split at hs
  · cases hs
    refine ⟨h.inbox, ?_, ?_⟩
    · intro turn hturn
      cases hturn
    · intro y hy
      cases hy
  · cases hs

/-- A safe step of a session keeps it fine, and the process up. -/
theorem Fine.move (h : x.Fine) {l : ClientStep} (hl : x.Safe l) (hs : x.move l = some o) :
    o.Fine := by
  cases l with
  | call c => exact h.call hl hs
  | cut c n => exact h.cut hl hs
  | close => exact h.close hs
  | reset n m => exact h.reset hl hs
  | acknowledge => exact h.acknowledge hs
  | serve accepted => exact h.serve hl hs
  | wait => exact h.wait hs
  | reply delivered => exact h.reply hl hs
  | exec accepted delivered => exact h.exec hl hs
  | recvAck => exact h.recvAck hl hs
  | leave => exact h.leave hs

lemma Fine.init : ClientSession.init.Fine := by
  refine ⟨⟨[], [], by simp, rfl, by decide, fun _ => rfl⟩, ?_, ?_⟩
  · intro turn hturn
    cases hturn
    exact trivial
  · intro y hy
    cases hy

end ClientSession

/-! ## All sessions -/

/-- The step leaves the process up. -/
def Clients.Safe (s : Clients T) (l : T × ClientStep) : Prop := (s.session l.1).Safe l.2

instance (s : Clients T) (l : T × ClientStep) : Decidable (s.Safe l) :=
  inferInstanceAs (Decidable (ClientSession.Safe _ _))

section Runs

variable [DecidableEq T] {s s' : Clients T} {t : T} {ls ms : List (T × ClientStep)}

/-- The process is up and every session fine. -/
def Clients.Fine (s : Clients T) : Prop := s.down = false ∧ ∀ t, (s.session t).Fine

lemma Clients.Fine.step (h : s.Fine) {l : T × ClientStep} (hl : s.Safe l)
    (hs : clients.step s l = some s') : s'.Fine := by
  unfold clients at hs
  simp only at hs
  split at hs
  · cases hs
  · obtain ⟨o, ho, rfl⟩ := Option.map_eq_some_iff.1 hs
    have hfine := (h.2 l.1).move hl ho
    cases o with
    | goes x =>
        refine ⟨h.1, fun t => ?_⟩
        change (Function.update s.session l.1 x t).Fine
        by_cases ht : t = l.1
        · rw [ht, Function.update_self]
          exact hfine
        · rw [Function.update_of_ne ht]
          exact h.2 t
    | ends => exact hfine.elim

end Runs

/-! ## Two clients -/

end ElasticFramework
