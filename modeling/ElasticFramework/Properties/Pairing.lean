import ElasticFramework.Construction.MainLoop
import Mathlib.Algebra.Order.Group.Nat

/-!
# Session pairing

Nothing a client sends names its session, so which connection a `Run` thread gets on a shared port
is decided by two orders: the order in which clients connected to the port, and the order in which
threads accept there.  Both are read off a run: `connectOrder p` lists the clients that connected
to `p`, and `acceptOrder p` the main-port clients of the threads that accepted on `p`.

`paired_iff` says that the sockets the threads have so far agree exactly when on both shared ports
the accept order is a prefix of the connect order.  `crossed` is a run with two clients in which
the second overtakes the first between the main and the non-blocking port.
-/

namespace ElasticFramework

variable {C : Type*}

/-- The sockets a thread has so far belong to one client. -/
def RunPc.Paired : RunPc C → Prop
  | .gotNonBlocking sock nonBlockingSock => nonBlockingSock = sock
  | .session sock nonBlockingSock finishSock => nonBlockingSock = sock ∧ finishSock = sock
  | _ => True

/-- The client on the main port of a thread about to accept on `p`. -/
def RunPc.acceptsOn : RunPc C → Port → Option C
  | .gotSock sock, .nonBlocking => some sock
  | .gotNonBlocking sock _, .finish => some sock
  | _, _ => none

namespace Listening

/-- The client that connects to `p` in a step. -/
def connects (p : Port) (s : Listening C) : Handshake C → List C
  | .connect c => if (s.client c).port = some p then [c] else []
  | _ => []

/-- The main-port client of the thread that accepts on `p` in a step. -/
def accepts (p : Port) (s : Listening C) : Handshake C → List C
  | .acceptNonBlocking i => if p = .nonBlocking then ((s.thread i).acceptsOn p).toList else []
  | .acceptFinish i => if p = .finish then ((s.thread i).acceptsOn p).toList else []
  | _ => []

/-- The client whose connection is accepted on the shared port `p` in a step. -/
def accepted (p : Port) (s : Listening C) : Handshake C → List C
  | .acceptNonBlocking _ => if p = .nonBlocking then (s.pending p).head?.toList else []
  | .acceptFinish _ => if p = .finish then (s.pending p).head?.toList else []
  | _ => []

end Listening

/-! ## One step -/

/-- Changing the program counter of one thread changes whether all are paired by that thread. -/
lemma paired_update_iff {thread : ℕ → RunPc C} {i : ℕ} {pc : RunPc C} {A : Prop}
    (hpc : pc.Paired ↔ (thread i).Paired ∧ A) :
    (∀ j, (Function.update thread i pc j).Paired) ↔ (∀ j, (thread j).Paired) ∧ A := by
  rw [Function.forall_update_iff thread fun _ pc => pc.Paired, hpc]
  constructor
  · rintro ⟨⟨hi, hA⟩, hrest⟩
    refine ⟨fun j => ?_, hA⟩
    by_cases hj : j = i
    · rw [hj]
      exact hi
    · exact hrest j hj
  · rintro ⟨hall, hA⟩
    exact ⟨⟨hall i, hA⟩, fun j _ => hall j⟩

section Step

variable [DecidableEq C] {maxConnections : ℕ} {s s' : Listening C} {l : Handshake C}

/-- The moves of the set-up. -/
inductive Listening.Moves (maxConnections : ℕ) (s : Listening C) : Handshake C → Listening C → Prop
  | connect {c p} (hport : (s.client c).port = some p) :
      Moves maxConnections s (.connect c) { s with
        client := Function.update s.client c (s.client c).next
        pending := Function.update s.pending p (s.pending p ++ [c]) }
  | mainLoop {c rest} (hpending : s.pending .main = c :: rest) :
      Moves maxConnections s .mainLoop { s with
        pending := Function.update s.pending .main rest
        tmpSock := Function.update s.tmpSock s.counter (some c)
        thread := Function.update s.thread s.nextThread (.created s.counter)
        nextThread := s.nextThread + 1
        counter := if s.counter = maxConnections - 1 then 0 else s.counter + 1 }
  | readSock {i cell c} (hthread : s.thread i = .created cell) (hcell : s.tmpSock cell = some c) :
      Moves maxConnections s (.readSock i)
        { s with thread := Function.update s.thread i (.gotSock c) }
  | acceptNonBlocking {i sock c rest} (hthread : s.thread i = .gotSock sock)
      (hpending : s.pending .nonBlocking = c :: rest) :
      Moves maxConnections s (.acceptNonBlocking i) { s with
        pending := Function.update s.pending .nonBlocking rest
        thread := Function.update s.thread i (.gotNonBlocking sock c) }
  | acceptFinish {i sock nonBlockingSock c rest}
      (hthread : s.thread i = .gotNonBlocking sock nonBlockingSock)
      (hpending : s.pending .finish = c :: rest) :
      Moves maxConnections s (.acceptFinish i) { s with
        pending := Function.update s.pending .finish rest
        thread := Function.update s.thread i (.session sock nonBlockingSock c) }

lemma Listening.moves_of_step (h : (listening C maxConnections).step s l = some s') :
    s.Moves maxConnections l s' := by
  cases l with
  | connect c =>
      simp only [listening, Listening.connect] at h
      split at h
      · cases h
      · rename_i p hport
        cases h
        exact .connect hport
  | mainLoop =>
      simp only [listening, Listening.mainLoop] at h
      split at h
      · cases h
      · rename_i c rest hpending
        cases h
        exact .mainLoop hpending
  | readSock i =>
      simp only [listening, Listening.readSock] at h
      split at h
      · rename_i cell hthread
        obtain ⟨c, hcell, rfl⟩ := Option.map_eq_some_iff.1 h
        exact .readSock hthread hcell
      · cases h
  | acceptNonBlocking i =>
      simp only [listening, Listening.acceptNonBlocking] at h
      split at h
      · rename_i sock c rest hthread hpending
        cases h
        exact .acceptNonBlocking hthread hpending
      · cases h
  | acceptFinish i =>
      simp only [listening, Listening.acceptFinish] at h
      split at h
      · rename_i sock nonBlockingSock c rest hthread hpending
        cases h
        exact .acceptFinish hthread hpending
      · cases h

/-- On a shared port connections wait between connect and accept, in order. -/
lemma pending_step (hs : s.Moves maxConnections l s') {p : Port} (hp : p ≠ .main) :
    s.accepted p l ++ s'.pending p = s.pending p ++ s.connects p l := by
  cases hs with
  | @connect c q hport =>
      by_cases hpq : p = q
      · subst hpq
        simp [Listening.accepted, Listening.connects, hport]
      · simp [Listening.accepted, Listening.connects, hport, hpq, Ne.symm hpq]
  | mainLoop hpending => simp [Listening.accepted, Listening.connects, hp]
  | readSock hthread hcell => simp [Listening.accepted, Listening.connects]
  | acceptNonBlocking hthread hpending =>
      by_cases hpq : p = .nonBlocking
      · subst hpq
        simp [Listening.accepted, Listening.connects, hpending]
      · simp [Listening.accepted, Listening.connects, hpq]
  | acceptFinish hthread hpending =>
      by_cases hpq : p = .finish
      · subst hpq
        simp [Listening.accepted, Listening.connects, hpending]
      · simp [Listening.accepted, Listening.connects, hpq]

/-- A thread accepts one connection at a time, and only its own keeps all threads paired. -/
lemma paired_step (hs : s.Moves maxConnections l s')
    (hfresh : ∀ i, s.nextThread ≤ i → s.thread i = .absent) :
    (∀ p, (s.accepts p l).length = (s.accepted p l).length) ∧
      ((∀ i, (s'.thread i).Paired) ↔ (∀ i, (s.thread i).Paired) ∧
        s.accepts .nonBlocking l = s.accepted .nonBlocking l ∧
        s.accepts .finish l = s.accepted .finish l) := by
  cases hs with
  | connect hport => simp [Listening.accepts, Listening.accepted]
  | mainLoop hpending =>
      refine ⟨fun p => rfl, paired_update_iff ?_⟩
      rw [hfresh s.nextThread le_rfl]
      simp [RunPc.Paired, Listening.accepts, Listening.accepted]
  | readSock hthread hcell =>
      refine ⟨fun p => rfl, paired_update_iff ?_⟩
      simp [RunPc.Paired, hthread, Listening.accepts, Listening.accepted]
  | acceptNonBlocking hthread hpending =>
      refine ⟨fun p => ?_, paired_update_iff ?_⟩
      · by_cases hp : p = .nonBlocking
        · simp [Listening.accepts, Listening.accepted, hp, hthread, hpending, RunPc.acceptsOn]
        · simp [Listening.accepts, Listening.accepted, hp]
      · simp [RunPc.Paired, hthread, hpending, Listening.accepts, Listening.accepted,
          RunPc.acceptsOn, eq_comm]
  | acceptFinish hthread hpending =>
      refine ⟨fun p => ?_, paired_update_iff ?_⟩
      · by_cases hp : p = .finish
        · simp [Listening.accepts, Listening.accepted, hp, hthread, hpending, RunPc.acceptsOn]
        · simp [Listening.accepts, Listening.accepted, hp]
      · simp [RunPc.Paired, hthread, hpending, Listening.accepts, Listening.accepted,
          RunPc.acceptsOn, eq_comm]

lemma fresh_thread_step (hs : s.Moves maxConnections l s')
    (hfresh : ∀ i, s.nextThread ≤ i → s.thread i = .absent) :
    ∀ i, s'.nextThread ≤ i → s'.thread i = .absent := by
  have hmoved : ∀ {j : ℕ} {pc : RunPc C}, s.thread j ≠ .absent → ∀ i, s.nextThread ≤ i →
      Function.update s.thread j pc i = .absent := by
    intro j pc hj i hi
    have hne : i ≠ j := by
      rintro rfl
      exact hj (hfresh i hi)
    rw [Function.update_of_ne hne]
    exact hfresh i hi
  cases hs with
  | connect hport => exact hfresh
  | mainLoop hpending =>
      intro i hi
      have hlt : s.nextThread + 1 ≤ i := hi
      have hne : i ≠ s.nextThread := by omega
      simpa [hne] using hfresh i (by omega)
  | readSock hthread hcell => exact hmoved (by simp [hthread])
  | acceptNonBlocking hthread hpending => exact hmoved (by simp [hthread])
  | acceptFinish hthread hpending => exact hmoved (by simp [hthread])

end Step

/-! ## Runs -/

section Runs

variable [DecidableEq C] {maxConnections : ℕ} {s : Listening C} {ls : List (Handshake C)}

/-- The order in which clients connected to `p`. -/
def connectOrder (maxConnections : ℕ) (p : Port) (ls : List (Handshake C)) : List C :=
  (listening C maxConnections).trace (Listening.connects p) Listening.init ls

/-- The order in which threads accepted on `p`, each by its client on the main port. -/
def acceptOrder (maxConnections : ℕ) (p : Port) (ls : List (Handshake C)) : List C :=
  (listening C maxConnections).trace (Listening.accepts p) Listening.init ls

/-- The order in which connections on `p` were accepted. -/
def acceptedOrder (maxConnections : ℕ) (p : Port) (ls : List (Handshake C)) : List C :=
  (listening C maxConnections).trace (Listening.accepted p) Listening.init ls

lemma connectOrder_snoc (p : Port) (l : Handshake C)
    (h : (listening C maxConnections).exec Listening.init ls = some s) :
    connectOrder maxConnections p (ls ++ [l]) =
      connectOrder maxConnections p ls ++ s.connects p l :=
  Machine.trace_snoc _ _ l h

lemma acceptOrder_snoc (p : Port) (l : Handshake C)
    (h : (listening C maxConnections).exec Listening.init ls = some s) :
    acceptOrder maxConnections p (ls ++ [l]) = acceptOrder maxConnections p ls ++ s.accepts p l :=
  Machine.trace_snoc _ _ l h

lemma acceptedOrder_snoc (p : Port) (l : Handshake C)
    (h : (listening C maxConnections).exec Listening.init ls = some s) :
    acceptedOrder maxConnections p (ls ++ [l]) =
      acceptedOrder maxConnections p ls ++ s.accepted p l :=
  Machine.trace_snoc _ _ l h

/-- What the three orders of a run say of the state it leads to. -/
structure Matched (maxConnections : ℕ) (ls : List (Handshake C)) (s : Listening C) : Prop where
  fresh : ∀ i, s.nextThread ≤ i → s.thread i = .absent
  waiting : ∀ p ≠ .main,
    connectOrder maxConnections p ls = acceptedOrder maxConnections p ls ++ s.pending p
  length : ∀ p, (acceptOrder maxConnections p ls).length =
    (acceptedOrder maxConnections p ls).length
  paired : (∀ i, (s.thread i).Paired) ↔
    acceptOrder maxConnections .nonBlocking ls = acceptedOrder maxConnections .nonBlocking ls ∧
      acceptOrder maxConnections .finish ls = acceptedOrder maxConnections .finish ls

lemma append_eq_append_iff_of_length {α : Type*} {a b c d : List α} (h : a.length = b.length) :
    a ++ c = b ++ d ↔ a = b ∧ c = d :=
  ⟨fun heq => List.append_inj heq h, fun ⟨hab, hcd⟩ => by rw [hab, hcd]⟩

lemma matched_of_exec
    (h : (listening C maxConnections).exec Listening.init ls = some s) :
    Matched maxConnections ls s := by
  refine (listening C maxConnections).exec_induction
    (P := fun ls s => Matched maxConnections ls s) ?_ ?_ h
  · exact
      { fresh := fun _ _ => rfl
        waiting := fun _ _ => rfl
        length := fun _ => rfl
        paired := iff_of_true (fun _ => trivial) ⟨rfl, rfl⟩ }
  · intro ls s l s' hs ih hl
    have hmoves := Listening.moves_of_step hl
    obtain ⟨hlength, hpaired⟩ := paired_step hmoves ih.fresh
    constructor
    · exact fresh_thread_step hmoves ih.fresh
    · intro p hp
      have hstep := pending_step hmoves hp
      have hold := ih.waiting p hp
      rw [connectOrder_snoc p l hs, acceptedOrder_snoc p l hs, hold, List.append_assoc,
        List.append_assoc, hstep]
    · intro p
      have hold := ih.length p
      rw [acceptOrder_snoc p l hs, acceptedOrder_snoc p l hs, List.length_append,
        List.length_append, hold, hlength]
    · rw [hpaired, ih.paired]
      simp only [acceptOrder_snoc _ l hs, acceptedOrder_snoc _ l hs]
      rw [append_eq_append_iff_of_length (ih.length .nonBlocking),
        append_eq_append_iff_of_length (ih.length .finish)]
      exact and_and_and_comm

/-- **Session pairing.**  In every reachable state the sockets each `Run` thread has so far belong
to one client exactly when on both shared ports the threads accepted in the order in which their
clients connected. -/
theorem paired_iff (h : (listening C maxConnections).exec Listening.init ls = some s) :
    (∀ i, (s.thread i).Paired) ↔
      acceptOrder maxConnections .nonBlocking ls <+: connectOrder maxConnections .nonBlocking ls ∧
        acceptOrder maxConnections .finish ls <+: connectOrder maxConnections .finish ls := by
  have hm := matched_of_exec h
  have hport : ∀ p ≠ Port.main,
      acceptOrder maxConnections p ls <+: connectOrder maxConnections p ls ↔
      acceptOrder maxConnections p ls = acceptedOrder maxConnections p ls := by
    intro p hp
    rw [hm.waiting p hp]
    constructor
    · intro hprefix
      exact (List.prefix_of_prefix_length_le hprefix (List.prefix_append _ _)
        (hm.length p).le).eq_of_length (hm.length p)
    · intro heq
      rw [heq]
      exact List.prefix_append _ _
  rw [hm.paired, hport .nonBlocking (by decide), hport .finish (by decide)]

end Runs

/-- Two clients set up one after the other. -/
def inTurn : List (Handshake ℕ) :=
  [.connect 0, .connect 0, .connect 0, .mainLoop, .readSock 0, .acceptNonBlocking 0,
    .acceptFinish 0, .connect 1, .mainLoop, .connect 1, .readSock 1, .connect 1,
    .acceptNonBlocking 1, .acceptFinish 1]

theorem paired_iff_run :
    ∃ s, (listening ℕ 100).exec Listening.init inTurn = some s ∧
      ((∀ i, (s.thread i).Paired) ↔
        acceptOrder 100 .nonBlocking inTurn <+: connectOrder 100 .nonBlocking inTurn ∧
          acceptOrder 100 .finish inTurn <+: connectOrder 100 .finish inTurn) := by
  have hrun : (listening ℕ 100).exec Listening.init inTurn = some _ := rfl
  exact ⟨_, hrun, paired_iff hrun⟩

/-- Client `1` overtakes client `0` between the main and the non-blocking port: the thread of
client `0` ends up with the non-blocking socket of client `1`. -/
theorem crossed :
    ∃ s, (listening ℕ 100).exec Listening.init
        [.connect 0, .mainLoop, .connect 1, .mainLoop, .readSock 0, .readSock 1, .connect 1,
          .connect 0, .acceptNonBlocking 0, .acceptNonBlocking 1, .connect 0, .connect 1,
          .acceptFinish 0, .acceptFinish 1] = some s ∧
      s.thread 0 = .session 0 1 0 ∧ s.thread 1 = .session 1 0 1 :=
  ⟨_, rfl, rfl, rfl⟩

end ElasticFramework
