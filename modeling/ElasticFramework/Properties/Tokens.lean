import ElasticFramework.Properties.Coherence
import ElasticFramework.Framework.Tally

/-!
# Work tokens

`CommandPool::sem_` should count the queues a worker could be given.  Between the semaphore and
the queues stand the tokens on their way: one in the hands of each worker that has taken a token
and not yet spent it on a queue, and one for each worker that has found more work in its queue
but still holds the skip flag up.  `balance_step` is the balance of one step:

    sem + holders + lost = ready + resuming

where `lost` counts the pushes that find the queue empty while its worker is between the locked
emptiness test and `set_skip(false)`.  Such a push returns no token, because the flag is up, and
the worker returns none either, because it has looked already.

## Results

`tokens_exact_iff`: when every worker is idle the semaphore equals the number of ready queues
exactly when no push of the run fell into that window.  `lost_token` is a run with one such push,
at the end of which the queue is ready and the semaphore is zero.  `ready_of_admitted` is the half
of the balance that needs no condition, used for the scheduler's safety.
-/

namespace ElasticFramework

variable {K W T : Type*}

/-! ## The counts -/

/-- The queues in the pool that are neither empty nor skipped. -/
def Node.readyCount {D : Type*} (n : Node K D) : ℕ := n.queues.countP fun q => (n.que q).ready

/-- The worker will lower the skip flag of a queue that is not empty. -/
def WorkerPc.resumes {D : Type*} (que : ℕ → CommandQueue K D) : WorkerPc K → Bool
  | .tested q _ => !(que q).isEmpty
  | _ => false

namespace State

/-- The workers with an unspent token. -/
def holders [Fintype W] (s : State K W T) : ℕ :=
  (Finset.univ.filter fun w => (s.worker w).holdsToken = true).card

/-- The workers about to make a queue ready again. -/
def resuming [Fintype W] (s : State K W T) : ℕ :=
  (Finset.univ.filter fun w => (s.worker w).resumes s.node.que = true).card

/-- The step pushes on an empty queue whose worker has found it empty and has not lowered the
skip flag yet. -/
def LosesToken (s : State K W T) : Label K W T → Prop
  | .push t _ | .finish t =>
    ∃ w q, (s.session t).queue = some q ∧ s.worker w = .tested q false ∧
      (s.node.que q).queue = []
  | _ => False

end State

/-! ## How the counts change -/

namespace Node

variable {D : Type*} {n m : Node K D}

/-- One queue of the pool changes. -/
lemma readyCount_update (hl : n.Linked) {q : ℕ} (hq : q ∈ n.queues) {cq : CommandQueue K D}
    (hqueues : m.queues = n.queues) (hque : m.que = Function.update n.que q cq) :
    m.readyCount + (if (n.que q).ready then 1 else 0) =
      n.readyCount + if cq.ready then 1 else 0 := by
  have hupdate := countP_update hl.nodupQueues hq
    (p := fun p => (n.que p).ready) (q := fun p => (m.que p).ready) fun p _ hp => by
      rw [hque, Function.update_of_ne hp]
  have hself : (m.que q).ready = cq.ready := by rw [hque, Function.update_self]
  simpa only [readyCount, hqueues, hself] using hupdate

lemma readyCount_congr (hqueues : m.queues = n.queues)
    (hready : ∀ q ∈ n.queues, (m.que q).ready = (n.que q).ready) :
    m.readyCount = n.readyCount := by
  rw [readyCount, hqueues]
  exact List.countP_congr fun q hq => by simp [hready q hq]

lemma readyCount_createQueue (hl : n.Linked) (v : ℕ) :
    (n.createQueue v).readyCount = n.readyCount := by
  have hold : n.queues.countP (fun q => ((n.createQueue v).que q).ready) = n.readyCount := by
    refine List.countP_congr fun q hq => ?_
    have hlt := hl.freshQueues q hq
    simp [createQueue, hlt.ne]
  rw [← hold]
  simp [readyCount, createQueue, List.countP_append, CommandQueue.new, CommandQueue.ready,
    CommandQueue.isEmpty]

/-- An empty queue leaves the pool. -/
lemma readyCount_teardown [Arith K] {q v : ℕ} (hempty : (n.que q).queue = []) :
    ((n.destroyQueue q).destroyVM v).2.readyCount = n.readyCount := by
  have hready : (n.que q).ready = false := by
    simp [CommandQueue.ready, CommandQueue.isEmpty, hempty]
  have hsame : ((n.destroyQueue q).destroyVM v).2.readyCount =
      (n.queues.erase q).countP fun p => (n.que p).ready := by
    simp [readyCount, destroyQueue]
  rw [hsame, List.countP_erase, hready]
  simp [readyCount]

/-- A pool with a positive count holds a ready queue. -/
lemma exists_ready_of_readyCount (h : 0 < n.readyCount) :
    ∃ q ∈ n.queues, (n.que q).ready = true := by
  simpa [readyCount, List.countP_pos_iff] using h

end Node

namespace WorkerPc

variable {D : Type*} {que que' : ℕ → CommandQueue K D} {pc : WorkerPc K}

/-- What a worker resumes depends on the list of its own queue. -/
lemma resumes_congr (h : ∀ q, pc.queue = some q → (que' q).queue = (que q).queue) :
    pc.resumes que' = pc.resumes que := by
  cases pc with
  | tested q b =>
      have hq := h q rfl
      simp [resumes, CommandQueue.isEmpty, hq]
  | _ => rfl

lemma inEpilogue_of_resumes (h : pc.resumes que = true) : pc.inEpilogue = true := by
  cases pc with
  | tested q b => rfl
  | _ => cases h

end WorkerPc

namespace State

variable [Fintype W] {s s' : State K W T}

/-- One worker moves. -/
lemma holders_update [DecidableEq W] (w : W) (h : ∀ w', w' ≠ w → s'.worker w' = s.worker w') :
    s'.holders + (if (s.worker w).holdsToken = true then 1 else 0) =
      s.holders + if (s'.worker w).holdsToken = true then 1 else 0 :=
  card_filter_update w (p := fun w => (s.worker w).holdsToken = true)
    (q := fun w => (s'.worker w).holdsToken = true) fun w' hw' => by rw [h w' hw']

lemma holders_congr (h : ∀ w, (s'.worker w).holdsToken = (s.worker w).holdsToken) :
    s'.holders = s.holders :=
  card_filter_congr fun w => by rw [h w]

lemma resuming_update [DecidableEq W] (w : W)
    (h : ∀ w', w' ≠ w →
      (s'.worker w').resumes s'.node.que = (s.worker w').resumes s.node.que) :
    s'.resuming + (if (s.worker w).resumes s.node.que = true then 1 else 0) =
      s.resuming + if (s'.worker w).resumes s'.node.que = true then 1 else 0 :=
  card_filter_update w (p := fun w => (s.worker w).resumes s.node.que = true)
    (q := fun w => (s'.worker w).resumes s'.node.que = true) fun w' hw' => by rw [h w' hw']

lemma resuming_congr
    (h : ∀ w, (s'.worker w).resumes s'.node.que = (s.worker w).resumes s.node.que) :
    s'.resuming = s.resuming :=
  card_filter_congr fun w => by rw [h w]

end State

/-! ## The balance of one step -/

section Balance

variable [Fintype W] {s s' : State K W T}

/-- Tokens and work before and after a step, with `lost` tokens lost. -/
def Balance (s s' : State K W T) (lost : ℕ) : Prop :=
  s'.node.sem + s'.holders + lost + (s.node.readyCount + s.resuming) =
    s.node.sem + s.holders + (s'.node.readyCount + s'.resuming)

/-- A push on a queue that is not empty changes no count. -/
lemma balance_push_nonempty {q : ℕ} {comm : Command K} (hq : (s.node.que q).queue ≠ [])
    (hnode : s'.node = s.node.push q comm) (hworker : s'.worker = s.worker) :
    Balance s s' 0 := by
  have hsem : s'.node.sem = s.node.sem := by simp [hnode, Node.push_sem, hq]
  have hholders : s'.holders = s.holders := State.holders_congr fun w => by rw [hworker]
  have hempty : ∀ p, (s'.node.que p).isEmpty = (s.node.que p).isEmpty := by
    intro p
    have hfalse : (s.node.que q).isEmpty = false := List.isEmpty_eq_false_iff.2 hq
    rw [hnode, Node.push_que]
    refine apply_update_eq (f := CommandQueue.isEmpty) ?_ p
    rw [hfalse]
    exact List.isEmpty_eq_false_iff.2 (by simp)
  have hskip : ∀ p, (s'.node.que p).skip = (s.node.que p).skip := by
    intro p
    rw [hnode, Node.push_que]
    refine apply_update_eq (f := CommandQueue.skip) ?_ p
    rfl
  have hready : s'.node.readyCount = s.node.readyCount :=
    Node.readyCount_congr (by rw [hnode, Node.push_queues]) fun p _ => by
      simp [CommandQueue.ready, hempty, hskip]
  have hresuming : s'.resuming = s.resuming := by
    refine State.resuming_congr fun w => ?_
    rw [hworker]
    cases s.worker w with
    | tested p b => simp [WorkerPc.resumes, hempty]
    | _ => rfl
  unfold Balance
  omega

/-- A push on an empty queue that is not skipped makes the queue ready and posts a token. -/
lemma balance_push_unskipped (hc : Coherent s) {q : ℕ} {comm : Command K}
    (hmem : q ∈ s.node.queues) (hq : (s.node.que q).queue = [])
    (hskip : (s.node.que q).skip = false) (hnode : s'.node = s.node.push q comm)
    (hworker : s'.worker = s.worker) : Balance s s' 0 := by
  have hsem : s'.node.sem = s.node.sem + 1 := by simp [hnode, Node.push_sem, hq, hskip]
  have hholders : s'.holders = s.holders := State.holders_congr fun w => by rw [hworker]
  have hready := Node.readyCount_update (m := s'.node) hc.linked hmem
    (by rw [hnode, Node.push_queues]) (by rw [hnode, Node.push_que])
  have hresuming : s'.resuming = s.resuming := by
    refine State.resuming_congr fun w => ?_
    rw [hworker]
    refine WorkerPc.resumes_congr fun p hp => ?_
    have hne : p ≠ q := by
      rintro rfl
      exact hc.claims.unclaimed hskip w hp
    simp [hnode, hne]
  simp [CommandQueue.ready, CommandQueue.isEmpty, hq, hskip] at hready
  unfold Balance
  omega

/-- A push on an empty queue that is in use posts no token.  If its worker has yet to test, the
worker will; if the worker has tested already, the token is lost. -/
lemma balance_push_skipped (hc : Coherent s) [DecidableEq W] {q : ℕ} {comm : Command K} {w : W}
    (hmem : q ∈ s.node.queues) (hq : (s.node.que q).queue = [])
    (hw : (s.worker w).queue = some q) (hnode : s'.node = s.node.push q comm)
    (hworker : s'.worker = s.worker) :
    (s.worker w = .tested q false → Balance s s' 1) ∧
      (s.worker w ≠ .tested q false → Balance s s' 0) := by
  obtain ⟨-, hskip, hfits⟩ := hc.claims.claim w q hw
  have hsem : s'.node.sem = s.node.sem := by simp [hnode, Node.push_sem, hskip]
  have hholders : s'.holders = s.holders := State.holders_congr fun w => by rw [hworker]
  have hready := Node.readyCount_update (m := s'.node) hc.linked hmem
    (by rw [hnode, Node.push_queues]) (by rw [hnode, Node.push_que])
  have hresuming : s'.resuming + _ = s.resuming + _ := State.resuming_update w fun w' hw' => by
    rw [hworker]
    refine WorkerPc.resumes_congr fun p hp => ?_
    have hne : p ≠ q := by
      rintro rfl
      exact hw' (hc.claims.unique w' w p hp hw)
    simp [hnode, hne]
  simp only [CommandQueue.ready, hskip, Bool.true_or, Bool.not_true, Bool.false_eq_true,
    if_false, Nat.add_zero] at hready
  constructor
  · intro htested
    simp [hworker, htested, WorkerPc.resumes, hnode, CommandQueue.isEmpty, hq] at hresuming
    unfold Balance
    omega
  · intro htested
    have hbefore : (s.worker w).resumes s.node.que = false := by
      cases hpc : s.worker w with
      | tested p b =>
          have hp : p = q := by simpa [hpc, WorkerPc.queue] using hw
          simp [WorkerPc.resumes, CommandQueue.isEmpty, hp, hq]
      | _ => rfl
    have hafter : (s.worker w).resumes s'.node.que = false := by
      cases hpc : s.worker w with
      | tested p b =>
          have hp : p = q := by simpa [hpc, WorkerPc.queue] using hw
          subst hp
          rw [hpc] at hfits htested
          cases b
          · exact absurd rfl htested
          · exact absurd hq hfits
      | _ => rfl
    simp [hworker, hbefore, hafter] at hresuming
    unfold Balance
    omega

/-- The node changes; no list of a queue in use and no ready queue does. -/
lemma balance_of_node (hworker : s'.worker = s.worker) (hsem : s'.node.sem = s.node.sem)
    (hready : s'.node.readyCount = s.node.readyCount)
    (hqueue : ∀ w q, (s.worker w).queue = some q →
      (s'.node.que q).queue = (s.node.que q).queue) : Balance s s' 0 := by
  have hholders : s'.holders = s.holders := State.holders_congr fun w => by rw [hworker]
  have hresuming : s'.resuming = s.resuming := State.resuming_congr fun w => by
    rw [hworker]
    exact WorkerPc.resumes_congr (hqueue w)
  unfold Balance
  omega

/-- One worker moves to `p`; its own token, what it resumes, the semaphore and the ready queues
account for the whole difference. -/
lemma balance_of_move [DecidableEq W] {w : W} {p : WorkerPc K}
    (hworker : s'.worker = Function.update s.worker w p)
    (hother : ∀ w', w' ≠ w →
      (s.worker w').resumes s'.node.que = (s.worker w').resumes s.node.que)
    (hsum : s'.node.sem + (if p.holdsToken = true then 1 else 0) +
        (if (s.worker w).resumes s.node.que = true then 1 else 0) + s.node.readyCount =
      s.node.sem + (if (s.worker w).holdsToken = true then 1 else 0) +
        (if p.resumes s'.node.que = true then 1 else 0) + s'.node.readyCount) :
    Balance s s' 0 := by
  have hoff : ∀ w', w' ≠ w → s'.worker w' = s.worker w' := by
    intro w' hw'
    rw [hworker, Function.update_of_ne hw']
  have hself : s'.worker w = p := by rw [hworker, Function.update_self]
  have hholders := State.holders_update w hoff
  have hresuming : s'.resuming + _ = s.resuming + _ := State.resuming_update w fun w' hw' => by
    rw [hoff w' hw']
    exact hother w' hw'
  rw [hself] at hholders hresuming
  unfold Balance
  omega

/-- One worker moves to `p` and writes a queue object, whose list is no one else's business. -/
lemma balance_of_queue [DecidableEq W] (hl : s.node.Linked) {w : W} {p : WorkerPc K} {q : ℕ}
    {cq : CommandQueue K W} (hmem : q ∈ s.node.queues) (hnode : s'.node = s.node.setQueue q cq)
    (hworker : s'.worker = Function.update s.worker w p)
    (hother : ∀ w', w' ≠ w → (s.worker w').queue = some q → cq.queue = (s.node.que q).queue)
    (hsum : (if p.holdsToken = true then 1 else 0) +
        (if (s.worker w).resumes s.node.que = true then 1 else 0) +
        (if (s.node.que q).ready = true then 1 else 0) =
      (if (s.worker w).holdsToken = true then 1 else 0) +
        (if p.resumes (Function.update s.node.que q cq) = true then 1 else 0) +
        (if cq.ready = true then 1 else 0)) :
    Balance s s' 0 := by
  have hcount := Node.readyCount_update (m := s.node.setQueue q cq) hl hmem rfl rfl
  have hsem : (s.node.setQueue q cq).sem = s.node.sem := rfl
  refine balance_of_move hworker (fun w' hw' => WorkerPc.resumes_congr fun r hr => ?_) ?_
  · rw [hnode, Node.setQueue_que]
    by_cases hrq : r = q
    · subst hrq
      rw [Function.update_self]
      exact hother w' hw' hr
    · rw [Function.update_of_ne hrq]
  · rw [hnode, Node.setQueue_que]
    omega

end Balance

section Step

variable [Fintype W] [DecidableEq W] {s s' : State K W T} {l : Label K W T}

/-- The pushes of a session on its own queue. -/
lemma balance_push (hc : Coherent s) (s' : State K W T) {t : T} {q : ℕ} {comm : Command K}
    (ht : (s.session t).queue = some q) (hnode : s'.node = s.node.push q comm)
    (hworker : s'.worker = s.worker) :
    ((∃ w, s.worker w = .tested q false ∧ (s.node.que q).queue = []) → Balance s s' 1) ∧
      ((¬ ∃ w, s.worker w = .tested q false ∧ (s.node.que q).queue = []) → Balance s s' 0) := by
  have hmem := hc.sessions.queueMem t q ht
  constructor
  · rintro ⟨w, hw, hq⟩
    exact (balance_push_skipped hc hmem hq (by simp [hw, WorkerPc.queue]) hnode hworker).1 hw
  · intro hsafe
    by_cases hq : (s.node.que q).queue = []
    · cases hskip : (s.node.que q).skip with
      | false => exact balance_push_unskipped hc hmem hq hskip hnode hworker
      | true =>
          obtain ⟨w, hw⟩ := hc.claims.claimed q hskip
          exact (balance_push_skipped hc hmem hq hw hnode hworker).2 fun htested =>
            hsafe ⟨w, htested, hq⟩
    · exact balance_push_nonempty hq hnode hworker

variable [Arith K] [DecidableEq T]

/-- A step that loses no token keeps the balance. -/
lemma balance_step (hc : Coherent s) (hs : Step s l s') (hl : ¬ s.LosesToken l) :
    Balance s s' 0 := by
  cases hs with
  | @connect t weight hpc hlock => exact balance_of_node rfl rfl rfl fun _ _ _ => rfl
  | @createQueue t v hpc hlock =>
      refine balance_of_node rfl rfl (Node.readyCount_createQueue hc.linked v) fun w q hq => ?_
      have hlt := hc.claims.lt_nextQueue hc.linked hq
      simp [State.enter, State.withNode, Node.createQueue, hlt.ne]
  | @bindDev t dev v q hpc =>
      have hready : (s.node.setBindingDev q dev).readyCount = s.node.readyCount :=
        Node.readyCount_congr rfl fun p _ => Node.setBindingDev_ready _ _ _ _
      exact balance_of_node rfl rfl hready fun w p _ => Node.setBindingDev_queue _ _ _ _
  | @push t kind v q hpc hkind =>
      have ht : (s.session t).queue = some q := by simp [hpc, SessionPc.queue]
      have hpush := balance_push hc (s.pushNew q kind) ht rfl rfl
      refine hpush.2 ?_
      rintro ⟨w, hw, hq⟩
      exact hl ⟨w, q, ht, hw, hq⟩
  | @finish t v q hpc =>
      have ht : (s.session t).queue = some q := by simp [hpc, SessionPc.queue]
      have hpush := balance_push hc ((s.pushNew q .finish).enter t (.finishing v q s.nextPtr)) ht
        rfl rfl
      refine hpush.2 ?_
      rintro ⟨w, hw, hq⟩
      exact hl ⟨w, q, ht, hw, hq⟩
  | @passWait t v q p hpc hsem => exact balance_of_node rfl rfl rfl fun _ _ _ => rfl
  | @seeEmpty t v q hpc hempty => exact balance_of_node rfl rfl rfl fun _ _ _ => rfl
  | @teardown t v q hpc hlock =>
      have hempty := hc.sessions.drained t v q hpc
      refine balance_of_node rfl ?_ (Node.readyCount_teardown hempty) fun w p _ => ?_
      · simp [State.enter, State.withNode, Node.destroyQueue]
      · simp [State.enter, State.withNode, Node.destroyQueue]
  | @take w hpc hsem =>
      refine balance_of_move (w := w) rfl (fun _ _ => rfl) ?_
      have hready : Node.readyCount { s.node with sem := s.node.sem - 1 } = s.node.readyCount := rfl
      simp [State.goto, State.withNode, hpc, hready, WorkerPc.holdsToken, WorkerPc.resumes]
      omega
  | @check w hpc =>
      refine balance_of_move (w := w) rfl (fun _ _ => rfl) ?_
      by_cases hcheck : s.node.check w = true
      · simp [State.goto, hpc, hcheck, WorkerPc.holdsToken, WorkerPc.resumes]
      · simp [State.goto, hpc, hcheck, WorkerPc.holdsToken, WorkerPc.resumes]
  | @giveBack w hpc =>
      refine balance_of_move (w := w) rfl (fun _ _ => rfl) ?_
      have hready : s.node.increase.readyCount = s.node.readyCount := rfl
      have hsem : s.node.increase.sem = s.node.sem + 1 := rfl
      simp [State.goto, State.withNode, hpc, hready, hsem, WorkerPc.holdsToken, WorkerPc.resumes]
  | @pick w q comm rest hpc hlock hq hfront =>
      obtain ⟨hmem, hready⟩ := Node.inOrderSchedule_ready hq
      refine balance_of_queue hc.linked hmem rfl rfl (fun _ _ _ => rfl) ?_
      rw [hready]
      simp [hpc, CommandQueue.ready, WorkerPc.holdsToken, WorkerPc.resumes]
  | @beginExec w q comm hpc =>
      refine balance_of_move (w := w) (p := .executing q comm) ?_ (fun _ _ => ?_) ?_
      · simp [State.goto]
      · simp [State.goto]
      · simp [State.goto, hpc, WorkerPc.holdsToken, WorkerPc.resumes]
  | @endExec w q comm usedTime hpc =>
      refine balance_of_move (w := w) rfl (fun _ _ => rfl) ?_
      simp [State.goto, hpc, WorkerPc.holdsToken, WorkerPc.resumes]
  | @account w q comm usedTime hpc hlock =>
      refine balance_of_move (w := w) rfl (fun _ _ => rfl) ?_
      have hready : (s.node.account q usedTime).readyCount = s.node.readyCount := rfl
      have hsem : (s.node.account q usedTime).sem = s.node.sem := rfl
      simp [State.goto, State.withNode, hpc, hready, hsem, WorkerPc.holdsToken, WorkerPc.resumes]
  | @pop w q hpc =>
      have hqueue : (s.worker w).queue = some q := by simp [hpc, WorkerPc.queue]
      obtain ⟨hmem, hskip, -⟩ := hc.claims.claim w q hqueue
      refine balance_of_queue hc.linked hmem rfl rfl (fun w' hw' hq => ?_) ?_
      · exact absurd (hc.claims.unique w' w q hq hqueue) hw'
      · simp [hpc, hskip, CommandQueue.ready, WorkerPc.holdsToken, WorkerPc.resumes]
  | @testEmpty w q hpc hempty =>
      refine balance_of_move (w := w) rfl (fun _ _ => rfl) ?_
      simp [State.goto, hpc, hempty, CommandQueue.isEmpty, WorkerPc.holdsToken, WorkerPc.resumes]
  | @testNonempty w q hpc hempty =>
      refine balance_of_move (w := w) rfl (fun _ _ => rfl) ?_
      have hready : s.node.increase.readyCount = s.node.readyCount := rfl
      have hsem : s.node.increase.sem = s.node.sem + 1 := rfl
      have hque : s.node.increase.que = s.node.que := rfl
      simp [State.goto, State.withNode, hpc, hready, hsem, hque, hempty, CommandQueue.isEmpty,
        WorkerPc.holdsToken, WorkerPc.resumes]
  | @clearSkip w q b hpc =>
      obtain ⟨hmem, hskip, -⟩ := hc.claims.claim w q (by simp [hpc, WorkerPc.queue])
      refine balance_of_queue hc.linked hmem rfl rfl (fun _ _ _ => rfl) ?_
      simp [hpc, hskip, CommandQueue.ready, CommandQueue.isEmpty, WorkerPc.holdsToken,
        WorkerPc.resumes]

/-- A push into the window costs one token. -/
lemma balance_lost (hc : Coherent s) (hs : Step s l s') (hl : s.LosesToken l) :
    Balance s s' 1 := by
  cases hs with
  | @push t kind v q hpc hkind =>
      obtain ⟨w, p, hp, hw, hnil⟩ := hl
      have hpush := balance_push hc (s.pushNew p kind) hp rfl rfl
      have hq : p = q := by simpa [hpc, SessionPc.queue] using hp.symm
      subst hq
      exact hpush.1 ⟨w, hw, hnil⟩
  | @finish t v q hpc =>
      obtain ⟨w, p, hp, hw, hnil⟩ := hl
      have hq : p = q := by simpa [hpc, SessionPc.queue] using hp.symm
      subst hq
      have hpush := balance_push hc ((s.pushNew p .finish).enter t (.finishing v p s.nextPtr)) hp
        rfl rfl
      exact hpush.1 ⟨w, hw, hnil⟩
  | _ => exact absurd hl id

end Step

/-! ## Runs -/

section Runs

variable [Arith K] [Fintype W] [DecidableEq W] [DecidableEq T] {s : State K W T}
  {ls : List (Label K W T)}

open Classical in
/-- One entry for each token lost. -/
noncomputable def losses (s : State K W T) (l : Label K W T) : List (Label K W T) :=
  if s.LosesToken l then [l] else []

/-- The balance of a run. -/
theorem tokens_balance (h : computeNode.exec State.init ls = some s) :
    s.node.sem + s.holders + (computeNode.trace losses State.init ls).length =
      s.node.readyCount + s.resuming := by
  refine computeNode.exec_induction (P := fun ls s =>
    s.node.sem + s.holders + (computeNode.trace losses State.init ls).length =
      s.node.readyCount + s.resuming) ?_ ?_ h
  · simp [State.init, Node.init, State.holders, State.resuming, Node.readyCount,
      WorkerPc.holdsToken, WorkerPc.resumes]
  · intro ls s l s' hs ih hl
    have hc := coherent_of_exec hs
    have hstep := step_inv hl
    rw [computeNode.trace_snoc losses l hs, List.length_append]
    by_cases hlose : s.LosesToken l
    · have hbalance := balance_lost hc hstep hlose
      unfold Balance at hbalance
      simp only [losses, hlose, if_true, List.length_singleton]
      omega
    · have hbalance := balance_step hc hstep hlose
      unfold Balance at hbalance
      simp only [losses, hlose, if_false, List.length_nil]
      omega

/-- An admitted worker that gets the scheduler lock finds a ready queue, whatever was lost. -/
theorem ready_of_admitted (h : computeNode.exec State.init ls = some s) {w : W}
    (hw : s.worker w = .admitted) (hlock : s.procLock = none) :
    ∃ q ∈ s.node.queues, (s.node.que q).ready = true := by
  have hbalance := tokens_balance h
  have hholder : 0 < s.holders :=
    Finset.card_pos.2 ⟨w, Finset.mem_filter.2 ⟨Finset.mem_univ w, by rw [hw]; rfl⟩⟩
  -- A worker about to make its queue ready again would hold the lock.
  have hresuming : s.resuming = 0 := by
    refine Finset.card_eq_zero.2 (Finset.filter_eq_empty_iff.2 fun w' _ hw' => ?_)
    have hin := WorkerPc.inEpilogue_of_resumes hw'
    have hk := (coherent_of_exec h).lock
    rw [hlock] at hk
    rw [hk.not_inEpilogue w'] at hin
    cases hin
  exact Node.exists_ready_of_readyCount (by omega)

/-- **Tokens count ready queues, unless a push lost one.**  When every worker is idle, the
semaphore equals the number of queues that are neither empty nor skipped exactly when no push of
the run found its queue empty between the worker's emptiness test and its `set_skip(false)`. -/
theorem tokens_exact_iff (h : computeNode.exec State.init ls = some s)
    (hidle : ∀ w, (s.worker w).busy = false) :
    s.node.sem = s.node.readyCount ↔
      computeNode.AllSteps (fun s l => ¬ s.LosesToken l) State.init ls := by
  have hbalance := tokens_balance h
  have hwaiting : ∀ w, s.worker w = .waiting := by
    intro w
    have hw := hidle w
    cases hpc : s.worker w with
    | waiting => rfl
    | _ => simp [hpc, WorkerPc.busy] at hw
  have hholders : s.holders = 0 := by simp [State.holders, hwaiting, WorkerPc.holdsToken]
  have hresuming : s.resuming = 0 := by simp [State.resuming, hwaiting, WorkerPc.resumes]
  have hlosses : computeNode.trace losses State.init ls = [] ↔
      computeNode.AllSteps (fun s l => ¬ s.LosesToken l) State.init ls := by
    rw [computeNode.trace_eq_nil_iff losses h]
    simp [losses]
  rw [← hlosses, ← List.length_eq_zero_iff]
  omega

end Runs

/-- One client connects and pushes a command. -/
def oneClient : List (Label ℝ Unit Unit) :=
  [.connect () 1, .createQueue (), .bindDev () (), .push () .write]

/-- One token, one ready queue. -/
theorem tokens_exact_iff_run :
    ∃ s, computeNode.exec State.init oneClient = some s ∧
      (s.node.sem = s.node.readyCount ↔
        computeNode.AllSteps (fun s l => ¬ s.LosesToken l) State.init oneClient) := by
  have hrun : computeNode.exec State.init oneClient = some _ := rfl
  exact ⟨_, hrun, tokens_exact_iff hrun fun _ => rfl⟩

/-! ## A token is lost -/

/-- The one device's worker, up to its `check`. -/
def oneClientStart : List (Label ℝ Unit Unit) := oneClient ++ [.take (), .check ()]

/-- The state in which the worker of `oneClientStart` picks its queue. -/
noncomputable def oneClientState : State ℝ Unit Unit :=
  (computeNode.exec State.init oneClientStart).getD State.init

lemma oneClientState_inOrderSchedule : oneClientState.node.inOrderSchedule = some 0 := by
  have hcos : oneClientState.node.cosValue 0 =
      (0 + 1 * 1) / (√(0 + 1 * 1) * √(0 + ((1 + 1) * 0 * 1 + 1 * 1))) := rfl
  have hlt : (-1 : ℝ) < oneClientState.node.cosValue 0 := by
    rw [hcos]
    norm_num
  exact Node.inOrderSchedule_of_single rfl rfl hlt

/-- The second command is pushed while the worker of the first is between its emptiness test and
`set_skip(false)`.  The worker is idle again, the queue is ready, and there is no token for it. -/
theorem lost_token :
    ∃ s : State ℝ Unit Unit, computeNode.exec State.init (oneClientStart ++ .pick () ::
        [.beginExec (), .endExec () 1, .account (), .pop (), .test (), .push () .read,
          .clearSkip ()]) = some s ∧
      (∀ w, (s.worker w).busy = false) ∧ s.node.sem = 0 ∧ s.node.readyCount = 1 := by
  have hstart : computeNode.exec State.init oneClientStart = some oneClientState := rfl
  have hpc : oneClientState.worker () = .admitted := rfl
  have hfront : (oneClientState.node.que 0).queue = [Command.new 0 .write] := rfl
  have hpick : computeNode.step oneClientState (.pick ()) =
      some ((oneClientState.withNode (oneClientState.node.setSkip 0 true)).goto ()
        (.picked 0 (Command.new 0 .write))) :=
    step_pick hpc rfl oneClientState_inOrderSchedule hfront
  have hrest : computeNode.exec ((oneClientState.withNode
      (oneClientState.node.setSkip 0 true)).goto () (.picked 0 (Command.new 0 .write)))
      [.beginExec (), .endExec () 1, .account (), .pop (), .test (), .push () .read,
        .clearSkip ()] = some _ := rfl
  have hfinish := computeNode.exec_cons_iff.2 ⟨_, hpick, hrest⟩
  exact ⟨_, computeNode.exec_append_iff.2 ⟨_, hstart, hfinish⟩, fun _ => rfl, rfl, rfl⟩

end ElasticFramework
