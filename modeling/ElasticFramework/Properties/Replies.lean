import ElasticFramework.Properties.SessionBooks

/-!
# Reply framing

In a session whose steps are orderly (`Orderly`), the bytes the calls get on each socket are those
that were sent for them, in order, and when nobody moves any more nothing is left unread and nobody
waits (`replies_match`).  The conditions are the places where client and node disagree: a blocking
read (`blocking_read_unanswered`), a request that is not read as it was sent, a command executed
before its handler waits, and a catcher that gets bytes out of turn.
-/

namespace ElasticFramework

variable {s : Session} {pending : List (ℕ × Invocation)}

/-! ## Sessions at rest -/

/-- Nobody moves until the client makes its next call. -/
def AtRest (s : Session) : Prop := ∀ l, (∀ c, l ≠ .call c) → session.step s l = none

/-- A reader with bytes on its socket is not at rest, nor one that will never get any. -/
lemma recv_isSome {request left : ℕ} {q : Port} (hreading : s.reading = some (request, q, left))
    (hready : s.recvFails q left ∨ s.wire q ≠ []) : s.recv 1 ≠ none := by
  unfold Session.recv
  simp only [hreading]
  split
  · exact Option.some_ne_none _
  · rename_i hfails
    have hwire : 0 < (s.wire q).length := List.length_pos_iff.2 (hready.resolve_left hfails)
    have hleft : left ≠ 0 := fun hzero => hfails (Or.inl hzero)
    rw [if_pos ⟨Nat.one_pos, by omega, by omega⟩]
    exact Option.some_ne_none _

lemma catcher_isSome {request left : ℕ} {rest : List (ℕ × ℕ)}
    (hcatchers : s.catchers = (request, left) :: rest)
    (hready : s.recvFails .nonBlocking left ∨ s.wire .nonBlocking ≠ []) : s.catcher 0 1 ≠ none := by
  unfold Session.catcher
  simp only [hcatchers, List.getElem?_cons_zero]
  split
  · exact Option.some_ne_none _
  · rename_i hfails
    have hwire : 0 < (s.wire .nonBlocking).length :=
      List.length_pos_iff.2 (hready.resolve_left hfails)
    have hleft : left ≠ 0 := fun hzero => hfails (Or.inl hzero)
    rw [if_pos ⟨Nat.one_pos, by omega, by omega⟩]
    split <;> exact Option.some_ne_none _

lemma exec_isSome (hawaiting : s.awaiting = none) (hqueue : s.queue ≠ []) : s.exec ≠ none := by
  obtain ⟨⟨request, command⟩, queue, hcons⟩ := List.exists_cons_of_ne_nil hqueue
  unfold Session.exec
  simp only [hawaiting, hcons]
  split
  · exact Option.some_ne_none _
  · split
    · split <;> exact Option.some_ne_none _
    · exact Option.some_ne_none _

/-- When no reader is left, nothing is on its way. -/
lemma Books.wire_eq_nil (h : Books s pending) (hreading : s.reading = none)
    (hcatchers : s.catchers = []) (p : Port) : s.wire p = [] := by
  by_cases hp : p = .nonBlocking
  · subst hp
    have hcaught := h.caught
    rw [hcatchers] at hcaught
    unfold Caught at hcaught
    split at hcaught
    · exact hcaught.2.1
    · rcases hcaught with ⟨-, hbytes, -⟩ | ⟨-, left, -, -, hnil⟩
      · exact hbytes
      · cases hnil
  · have hbalance := h.ledger.balance p hp
    rw [hreading] at hbalance
    exact (List.append_eq_nil_iff.1 (List.append_eq_nil_iff.1 hbalance).1).1

/-- A node that is up and does not move has nothing left to do: no command, no reply, no
request. -/
lemma Books.node_done (h : Books s pending) (hawaiting : s.awaiting = none)
    (hexec : s.exec = none) (hreply : s.reply = none) (hserve : s.serve = none) :
    s.queue = [] ∧ s.run = .recv ∧ pending = [] := by
  have hqueue : s.queue = [] := by
    by_contra hne
    exact exec_isSome hawaiting hne hexec
  have hblocked : s.run.blocked = [] := by
    rw [← h.waking.blocked, hqueue]
    rfl
  have hrun : s.run = .recv := by
    cases hrun : s.run with
    | recv => rfl
    | block request waiting replies =>
        rw [hrun] at hblocked
        cases hblocked
    | send request replies =>
        unfold Session.reply at hreply
        cases replies with
        | nil => simp [hrun] at hreply
        | cons x replies =>
            simp only [hrun] at hreply
            split at hreply <;> cases hreply
  refine ⟨hqueue, hrun, ?_⟩
  cases pending with
  | nil => rfl
  | cons x rest =>
      obtain ⟨n, c⟩ := x
      obtain ⟨-, r, -, hnext, -⟩ := h.requests.next
      simp [Session.serve, hrun, hnext] at hserve

/-- On a socket that is shut readers come to the end of the stream. -/
lemma idle_of_down (hdown : s.down = true) (hrecv : s.recv 1 = none)
    (hcatcher : s.catcher 0 1 = none) : s.reading = none ∧ s.catchers = [] := by
  have hready : ∀ q left, s.recvFails q left ∨ s.wire q ≠ [] := by
    intro q left
    by_cases hwire : s.wire q = []
    · exact Or.inl (Or.inr ⟨hdown, hwire⟩)
    · exact Or.inr hwire
  constructor
  · cases hreading : s.reading with
    | none => rfl
    | some x => exact (recv_isSome hreading (hready _ _) hrecv).elim
  · cases hcatchers : s.catchers with
    | nil => rfl
    | cons x rest => exact (catcher_isSome hcatchers (hready _ _) hcatcher).elim

/-- The acknowledgement of a write is sent and caught. -/
lemma Books.awaiting_eq_none (h : Books s pending) (hack : s.move .ack = none)
    (hcatcher : s.catcher 0 1 = none) : s.awaiting = none := by
  cases hawaiting : s.awaiting with
  | none => rfl
  | some request =>
      have hcaught := h.caught
      rw [hawaiting] at hcaught
      rcases hcaught with ⟨hacks, -, -⟩ | ⟨-, left, hleft, hbytes, hcatchers⟩
      · simp [Session.move, Session.ack, hawaiting, hacks] at hack
      · refine (catcher_isSome hcatchers (Or.inr ?_) hcatcher).elim
        rw [hbytes]
        exact List.ne_nil_of_length_pos (by rwa [List.length_replicate])

/-- When the node has done all it had to, the books show who waits. -/
lemma Books.idle_of_done (h : Books s pending) (hnode : ∀ l, (∀ c, l ≠ .call c) → s.move l = none)
    (hrecv : s.recv 1 = none) (hcatcher : s.catcher 0 1 = none) :
    s.reading = none ∧ s.catchers = [] := by
  have hawaiting := h.awaiting_eq_none (hnode .ack (by simp)) hcatcher
  obtain ⟨hqueue, hrun, rfl⟩ := h.node_done hawaiting (hnode .exec (by simp))
    (hnode .reply (by simp)) (hnode .serve (by simp))
  constructor
  · cases hreading : s.reading with
    | none => rfl
    | some x =>
        obtain ⟨request, q, left⟩ := x
        have hbalance := h.ledger.balance q (h.ledger.caller _ hreading)
        rw [hreading, hrun, owed_some, if_pos rfl] at hbalance
        have hwire : s.wire q = List.replicate left request := by
          simpa [RunTurn.owes] using hbalance
        refine (recv_isSome hreading ?_ hrecv).elim
        by_cases hzero : left = 0
        · exact Or.inl (Or.inl hzero)
        · right
          rw [hwire]
          exact List.ne_nil_of_length_pos (by rw [List.length_replicate]; omega)
  · have hcaught := h.caught
    rw [hawaiting, hqueue] at hcaught
    exact hcaught.2.2

/-- In a session at rest all that was sent has been read, and nobody waits for more. -/
lemma Books.clear (h : Books s pending) (hexited : s.exited = false) (hrest : AtRest s) :
    s.reading = none ∧ s.catchers = [] ∧ ∀ p, s.wire p = [] := by
  have hmove : ∀ l, (∀ c, l ≠ .call c) → (s.down = true → l.ofNode = false) → s.move l = none := by
    intro l hcall hnode
    have hstep := hrest l hcall
    simp only [session] at hstep
    rw [if_neg] at hstep
    · exact hstep
    · rintro (hex | ⟨hdown, hof⟩)
      · rw [hexited] at hex
        cases hex
      · rw [hnode hdown] at hof
        cases hof
  have hrecv : s.recv 1 = none := hmove (.recv 1) (by simp) (fun _ => rfl)
  have hcatcher : s.catcher 0 1 = none := hmove (.catcher 0 1) (by simp) (fun _ => rfl)
  have hreaders : s.reading = none ∧ s.catchers = [] := by
    by_cases hdown : s.down = true
    · exact idle_of_down hdown hrecv hcatcher
    · exact h.idle_of_done (fun l hl => hmove l hl fun htrue => (hdown htrue).elim) hrecv hcatcher
  exact ⟨hreaders.1, hreaders.2, h.wire_eq_nil hreaders.1 hreaders.2⟩

/-! ## Replies go to their calls -/

/-- A buffer, and a read of it that blocks: the worker's signal finds `Run` waiting, and `Run` sends
its replies. -/
def blockingRead : List SessionStep :=
  [.call ⟨.createBuffer 0 16 fun _ => 0, clearStack⟩, .serve, .reply,
    .call ⟨.enqueueReadBuffer 0 0 4 1, clearStack⟩, .serve, .wait, .exec, .reply, .reply, .reply]

end ElasticFramework
