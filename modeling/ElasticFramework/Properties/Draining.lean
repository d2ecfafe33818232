import ElasticFramework.Construction.Teardown
import ElasticFramework.Properties.Binding
import ElasticFramework.Properties.Scheduling

/-!
# The queues run empty

What the tokens are for is that work gets done: whatever the sessions have pushed, the device
workers can finish without more being pushed.  They can, from every state of a run in which no token
was lost (`drains`).  This is about the workers and their tokens; what `Exec` does ends, although
that of a read that does not block has to wait for its client's acknowledgement.  One worker's turn
is never blocked for good (`Turns`); a worker that is done leaves one busy worker less, and when
none is busy the semaphore counts the queues that have work, so that a worker for one of them takes
a token, is let through, and leaves one command less.

A lost token is lost for all that comes after.  The balance of a run has it on the side of the
semaphore, and empty queues have nothing for the other side: from the loss on there is always a
queue with work (`lost_for_good`).
-/

namespace ElasticFramework

variable {W T : Type*}

/-! ## Work left -/

namespace State

variable {K : Type*}

/-- The commands on the queues of the pool. -/
def backlog (s : State K W T) : ℕ := (s.node.queues.map fun q => (s.node.que q).queue.length).sum

/-- No queue of the pool has a command. -/
def Drained (s : State K W T) : Prop := ∀ q ∈ s.node.queues, (s.node.que q).queue = []

lemma backlog_congr {s s' : State K W T} (hqueues : s'.node.queues = s.node.queues)
    (hqueue : ∀ q ∈ s.node.queues, (s'.node.que q).queue = (s.node.que q).queue) :
    s'.backlog = s.backlog := by
  rw [backlog, backlog, hqueues]
  congr 1
  exact List.map_congr_left fun q hq => by rw [hqueue q hq]

/-- `set_skip` leaves the commands where they are. -/
lemma backlog_setSkip [Arith K] {s s' : State K W T} {q : ℕ} {b : Bool}
    (h : s'.node = s.node.setSkip q b) : s'.backlog = s.backlog := by
  refine backlog_congr (by rw [h]; rfl) fun p _ => ?_
  rw [h]
  by_cases hp : p = q
  · subst hp
    simp [Node.setSkip, Node.setQueue]
  · simp [Node.setSkip, Node.setQueue, hp]

/-- `Pop` takes one command. -/
lemma backlog_pop [Arith K] {s s' : State K W T} {q : ℕ} (hl : s.node.Linked)
    (hq : q ∈ s.node.queues) (hne : (s.node.que q).queue ≠ []) (h : s'.node = s.node.pop q) :
    s'.backlog + 1 = s.backlog := by
  have hsum := sum_map_update hl.nodupQueues hq
    (f := fun p => (s.node.que p).queue.length) (g := fun p => (s'.node.que p).queue.length)
    fun p _ hp => by rw [h]; simp [Node.pop, Node.setQueue, hp]
  have hqueues : s'.node.queues = s.node.queues := by rw [h]; rfl
  have hlength : (s'.node.que q).queue.length + 1 = (s.node.que q).queue.length := by
    obtain ⟨comm, rest, hfront⟩ := List.exists_cons_of_ne_nil hne
    rw [h]
    simp [Node.pop, Node.setQueue, hfront]
  rw [backlog, backlog, hqueues]
  omega

end State

/-- A worker that is not busy waits for a token. -/
lemma WorkerPc.eq_waiting {K : Type*} {pc : WorkerPc K} (h : pc.busy = false) : pc = .waiting := by
  cases pc with
  | waiting => rfl
  | _ => cases h

/-! ## A lost token -/

section Lost

variable {K : Type*} {s : State K W T}

/-- The queues of the pool that have commands. -/
def Node.workCount {D : Type*} (n : Node K D) : ℕ := n.queues.countP fun q => !(n.que q).isEmpty

/-- The queues with work are ready, or skipped. -/
lemma workCount_eq {D : Type*} (n : Node K D) : n.workCount =
    n.readyCount + n.queues.countP fun q => (n.que q).skip && !(n.que q).isEmpty := by
  rw [Node.workCount, Node.readyCount]
  induction n.queues with
  | nil => rfl
  | cons q queues ih =>
      rw [List.countP_cons, List.countP_cons, List.countP_cons, ih]
      cases hskip : (n.que q).skip <;> cases hempty : (n.que q).isEmpty <;>
        simp [CommandQueue.ready, hskip, hempty] <;> omega

/-- A worker that will make its queue ready again has a queue of its own, with work. -/
lemma resuming_le [Fintype W] (hc : Coherent s) : s.resuming ≤
    s.node.queues.countP fun q => (s.node.que q).skip && !(s.node.que q).isEmpty := by
  rw [List.countP_eq_length_filter,
    ← List.toFinset_card_of_nodup (hc.linked.nodupQueues.filter _)]
  have hqueue : ∀ w, (s.worker w).resumes s.node.que = true →
      ∃ q, (s.worker w).queue = some q ∧ (s.node.que q).isEmpty = false := by
    intro w hw
    cases hpc : s.worker w with
    | tested q b =>
        rw [hpc] at hw
        exact ⟨q, rfl, by simpa [WorkerPc.resumes] using hw⟩
    | _ =>
        rw [hpc] at hw
        cases hw
  refine Finset.card_le_card_of_injOn (fun w => ((s.worker w).queue).getD 0) ?_ ?_
  · intro w hw
    obtain ⟨q, hq, hempty⟩ := hqueue w (Finset.mem_filter.1 hw).2
    obtain ⟨hmem, hskip, -⟩ := hc.claims.claim w q hq
    simp [hq, hmem, hskip, hempty]
  · intro w hw w' hw' heq
    obtain ⟨q, hq, -⟩ := hqueue w (Finset.mem_filter.1 hw).2
    obtain ⟨q', hq', -⟩ := hqueue w' (Finset.mem_filter.1 hw').2
    simp only [hq, hq', Option.getD_some] at heq
    subst heq
    exact hc.claims.unique w w' q hq hq'

variable [Arith K] [Fintype W] [DecidableEq W] [DecidableEq T] {ls ms : List (Label K W T)}

/-- As many queues have work as tokens have been lost, or more. -/
lemma losses_le_workCount (h : computeNode.exec State.init ls = some s) :
    (computeNode.trace losses State.init ls).length ≤ s.node.workCount := by
  have hbalance := tokens_balance h
  have hresuming := resuming_le (coherent_of_exec h)
  rw [workCount_eq]
  omega

/-- **Lost for good.**  The tokens that a run loses keep as many queues from being empty at any time
after it. -/
theorem lost_for_good (h : computeNode.exec State.init (ls ++ ms) = some s) :
    (computeNode.trace losses State.init ls).length ≤ s.node.workCount := by
  obtain ⟨t, ht, -⟩ := computeNode.exec_append_iff.1 h
  have hle := losses_le_workCount h
  rw [computeNode.trace_append losses ms ht, List.length_append] at hle
  omega

/-- A second command is pushed between the worker's emptiness test and `set_skip(false)`. -/
def losesToken : List (Label ℝ Unit Unit) :=
  oneClientStart ++ [.pick (), .beginExec (), .endExec () 1, .account (), .pop (), .test (),
    .push () .read]

/-- The worker goes on, and so does the session. -/
theorem lost_for_good_run : ∃ s, computeNode.exec State.init
      (losesToken ++ [.clearSkip (), .push () .write]) = some s ∧
    (computeNode.trace losses State.init losesToken).length ≤ s.node.workCount := by
  have hstart : computeNode.exec State.init oneClientStart = some oneClientState := rfl
  have hpc : oneClientState.worker () = .admitted := rfl
  have hfront : (oneClientState.node.que 0).queue = [Command.new 0 .write] := rfl
  have hpick := step_pick hpc rfl oneClientState_inOrderSchedule hfront
  obtain ⟨s, hrun⟩ : ∃ s, computeNode.exec State.init
      (losesToken ++ [.clearSkip (), .push () .write]) = some s := by
    rw [losesToken, List.append_assoc]
    exact ⟨_, computeNode.exec_append_iff.2 ⟨_, hstart, computeNode.exec_cons_iff.2
      ⟨_, hpick, rfl⟩⟩⟩
  exact ⟨s, hrun, lost_for_good hrun⟩

end Lost

/-! ## A worker's turn -/

/-- Weights are positive, and a command accounts no negative time. -/
def Label.Timely : Label ℝ W T → Prop
  | .connect _ weight => 0 < weight
  | .endExec _ usedTime => 0 ≤ usedTime
  | _ => True

variable [DecidableEq W] [DecidableEq T] {s s' : State ℝ W T} {l : Label ℝ W T}
  {ls : List (Label ℝ W T)} {w : W} {n m : ℕ}

/-- Device workers can move by themselves so that worker `w` is waiting and the others are where
they were, the scheduler lock is free, and `n` commands are done. -/
def Turns (w : W) (s : State ℝ W T) (n : ℕ) : Prop :=
  ∃ ls s', computeNode.exec s ls = some s' ∧ (∀ l ∈ ls, l.thread = none ∧ l.Timely) ∧
    s'.procLock = none ∧ s'.worker = Function.update s.worker w .waiting ∧
    s'.backlog + n ≤ s.backlog

namespace Turns

/-- One move before the rest of the turn. -/
lemma cons {pc : WorkerPc ℝ} (h : Turns w s' n) (hstep : step s l = some s')
    (hl : l.thread = none ∧ l.Timely) (hworker : s'.worker = Function.update s.worker w pc)
    (hbacklog : s'.backlog + m ≤ s.backlog) : Turns w s (n + m) := by
  obtain ⟨ls, t, hexec, hls, hlock, hwaiting, hless⟩ := h
  refine ⟨l :: ls, t, computeNode.exec_cons_iff.2 ⟨s', hstep, hexec⟩,
    List.forall_mem_cons.2 ⟨hl, hls⟩, hlock, ?_, by omega⟩
  rw [hwaiting, hworker, Function.update_idem]

lemma mono (h : Turns w s n) (hle : m ≤ n) : Turns w s m := by
  obtain ⟨ls, t, hexec, hls, hlock, hworker, hbacklog⟩ := h
  exact ⟨ls, t, hexec, hls, hlock, hworker, by omega⟩

lemma of_refused (hlock : s.procLock = none) (hpc : s.worker w = .refused) : Turns w s 0 := by
  have hstep : computeNode.exec s [.giveBack w] =
      some ((s.withNode s.node.increase).goto w .waiting) :=
    computeNode.exec_cons_iff.2 ⟨_, Step.step_eq (.giveBack hpc), rfl⟩
  exact ⟨_, _, hstep, by simp [Label.thread, Label.Timely], hlock, rfl, le_rfl⟩

lemma of_tested {q : ℕ} {b : Bool} (hpc : s.worker w = .tested q b) : Turns w s 0 := by
  have hstep : computeNode.exec s [.clearSkip w] =
      some ({ s.withNode (s.node.setSkip q false) with procLock := none }.goto w .waiting) :=
    computeNode.exec_cons_iff.2 ⟨_, Step.step_eq (.clearSkip hpc), rfl⟩
  refine ⟨_, _, hstep, by simp [Label.thread, Label.Timely], rfl, rfl, ?_⟩
  exact (State.backlog_setSkip (q := q) (b := false) rfl).le

lemma of_popped {q : ℕ} (hpc : s.worker w = .popped q) : Turns w s 0 := by
  by_cases hempty : (s.node.que q).queue = []
  · have hstep : step s (.test w) = some (s.goto w (.tested q false)) :=
      Step.step_eq (.testEmpty hpc hempty)
    exact (of_tested (Function.update_self ..)).cons (m := 0) hstep ⟨rfl, trivial⟩ rfl le_rfl
  · have hstep : step s (.test w) =
        some ((s.withNode s.node.increase).goto w (.tested q true)) :=
      Step.step_eq (.testNonempty hpc hempty)
    exact (of_tested (Function.update_self ..)).cons (m := 0) hstep ⟨rfl, trivial⟩ rfl le_rfl

/-- `Pop` takes the command. -/
lemma of_accounted (hc : Coherent s) {q : ℕ} (hpc : s.worker w = .accounted q) :
    Turns w s 1 := by
  obtain ⟨hmem, -, hfits⟩ := hc.claims.claim w q (by rw [hpc]; rfl)
  rw [hpc] at hfits
  have hstep : step s (.pop w) = some ((s.withNode (s.node.pop q)).goto w (.popped q)) :=
    Step.step_eq (.pop hpc)
  exact (of_popped (Function.update_self ..)).cons (m := 1) hstep ⟨rfl, trivial⟩ rfl
    (State.backlog_pop hc.linked hmem hfits rfl).le

lemma of_executed (hc : Coherent s) (hlock : s.procLock = none) {q : ℕ} {comm : Command ℝ}
    {usedTime : ℝ} (hpc : s.worker w = .executed q comm usedTime) : Turns w s 1 := by
  have hstep : step s (.account w) =
      some ({ s.withNode (s.node.account q usedTime) with procLock := some w }.goto w
        (.accounted q)) :=
    Step.step_eq (.account hpc hlock)
  have hc' := hc.step (step_inv hstep)
  exact (of_accounted hc' (Function.update_self ..)).cons (m := 0) hstep ⟨rfl, trivial⟩ rfl le_rfl

/-- `Exec` takes no time at all. -/
lemma of_executing (hc : Coherent s) (hlock : s.procLock = none) {q : ℕ} {comm : Command ℝ}
    (hpc : s.worker w = .executing q comm) : Turns w s 1 := by
  have hstep : step s (.endExec w 0) = some (s.goto w (.executed q comm 0)) :=
    Step.step_eq (.endExec hpc)
  have hc' := hc.step (step_inv hstep)
  exact (of_executed hc' hlock (Function.update_self ..)).cons (m := 0) hstep ⟨rfl, le_rfl⟩ rfl
    le_rfl

lemma of_picked (hc : Coherent s) (hlock : s.procLock = none) {q : ℕ} {comm : Command ℝ}
    (hpc : s.worker w = .picked q comm) : Turns w s 1 := by
  have hstep : step s (.beginExec w) = some ((s.exec comm).goto w (.executing q comm)) :=
    Step.step_eq (.beginExec hpc)
  have hc' := hc.step (step_inv hstep)
  have hbacklog : ((s.exec comm).goto w (.executing q comm)).backlog ≤ s.backlog :=
    (State.backlog_congr (by simp [State.goto]) fun p _ => by simp [State.goto]).le
  have hworker : ((s.exec comm).goto w (.executing q comm)).worker =
      Function.update s.worker w (.executing q comm) := by simp [State.goto]
  refine (of_executing hc' ?_ (by rw [hworker, Function.update_self])).cons (m := 0)
    hstep ⟨rfl, trivial⟩ hworker hbacklog
  simpa [State.goto] using hlock

end Turns

/-! ## Runs without a loss -/

/-- A worker gets a time to account when its `Exec` returns. -/
lemma executed_step (hs : Step s l s') {q : ℕ} {comm : Command ℝ} {usedTime : ℝ}
    (h : s'.worker w = .executed q comm usedTime) :
    s.worker w = .executed q comm usedTime ∨ l = .endExec w usedTime := by
  have hgoto : ∀ {w' : W} {pc : WorkerPc ℝ},
      Function.update s.worker w' pc w = .executed q comm usedTime →
        s.worker w = .executed q comm usedTime ∨ w = w' ∧ pc = .executed q comm usedTime := by
    intro w' pc hupdate
    by_cases hw : w = w'
    · subst hw
      rw [Function.update_self] at hupdate
      exact .inr ⟨rfl, hupdate⟩
    · rw [Function.update_of_ne hw] at hupdate
      exact .inl hupdate
  cases hs with
  | endExec hpc =>
      refine (hgoto h).imp_right ?_
      rintro ⟨rfl, hpc'⟩
      cases hpc'
      rfl
  | @check w' hpc =>
      refine (hgoto h).imp_right ?_
      rintro ⟨-, hpc'⟩
      split at hpc' <;> cases hpc'
  | @beginExec w' q' comm' hpc =>
      have hworker : Function.update s.worker w' (.executing q' comm') w =
          .executed q comm usedTime := by
        simpa [State.goto] using h
      refine (hgoto hworker).imp_right ?_
      rintro ⟨-, hpc'⟩
      cases hpc'
  | take | giveBack | pick | account | pop | testEmpty | testNonempty | clearSkip =>
      refine (hgoto h).imp_right ?_
      rintro ⟨-, hpc'⟩
      cases hpc'
  | _ => exact .inl h

/-- In a run of timely moves the times to account are not negative. -/
lemma usedTime_nonneg (h : computeNode.exec State.init ls = some s) (hls : ∀ l ∈ ls, l.Timely)
    {q : ℕ} {comm : Command ℝ} {usedTime : ℝ} (hpc : s.worker w = .executed q comm usedTime) :
    0 ≤ usedTime := by
  refine computeNode.exec_induction (P := fun ls s => (∀ l ∈ ls, l.Timely) →
    ∀ w q comm usedTime, s.worker w = .executed q comm usedTime → 0 ≤ usedTime) ?_ ?_ h hls _ _ _ _
    hpc
  · intro _ w q comm usedTime hpc
    cases hpc
  · intro ls s l s' _ ih hl hls w q comm usedTime hpc
    obtain ⟨hls, htimely⟩ := List.forall_mem_append.1 hls
    rcases executed_step (step_inv hl) hpc with hold | rfl
    · exact ih hls w q comm usedTime hold
    · exact htimely _ (List.mem_singleton_self _)

lemma admissible_of_timely (h : computeNode.exec State.init ls = some s)
    (hls : ∀ l ∈ ls, l.Timely) : computeNode.AllSteps (Admissible (0 < ·)) State.init ls := by
  rintro t l ⟨pre, post, rfl, ht⟩
  obtain ⟨hpre, hpost⟩ := List.forall_mem_append.1 hls
  refine ⟨?_, ?_⟩
  · rintro t' x rfl
    exact hpost _ (List.mem_cons_self ..)
  · intro u hu
    cases l with
    | account w =>
        cases hpc : t.worker w with
        | executed q comm usedTime =>
            simp only [State.accounts, hpc, Option.some.injEq] at hu
            exact hu ▸ usedTime_nonneg ht hpre hpc
        | _ => simp [State.accounts, hpc] at hu
    | _ => cases hu

/-- The state is that of a timely run that has lost no token. -/
def Lossless (s : State ℝ W T) : Prop :=
  ∃ ls, computeNode.exec State.init ls = some s ∧ (∀ l ∈ ls, l.Timely) ∧
    computeNode.AllSteps (fun s l => ¬ s.LosesToken l) State.init ls

/-- Workers lose no tokens. -/
lemma Lossless.exec (h : Lossless s) (hexec : computeNode.exec s ls = some s')
    (hls : ∀ l ∈ ls, l.thread = none ∧ l.Timely) : Lossless s' := by
  induction ls generalizing s with
  | nil =>
      cases hexec
      exact h
  | cons l ls ih =>
      obtain ⟨t, hstep, hexec⟩ := computeNode.exec_cons_iff.1 hexec
      obtain ⟨⟨hthread, htimely⟩, hls⟩ := List.forall_mem_cons.1 hls
      obtain ⟨ks, hks, htimelyKs, hkeeps⟩ := h
      refine ih ⟨ks ++ [l], computeNode.exec_snoc_iff.2 ⟨s, hks, hstep⟩, ?_, ?_⟩ hexec hls
      · exact List.forall_mem_append.2 ⟨htimelyKs, by simpa using htimely⟩
      · refine computeNode.allSteps_snoc_iff.2 ⟨hkeeps, fun r _ => ?_⟩
        cases l with
        | push t kind => cases hthread
        | finish t => cases hthread
        | _ => exact id

namespace Lossless

lemma coherent (h : Lossless s) : Coherent s := by
  obtain ⟨ls, hls, -⟩ := h
  exact coherent_of_exec hls

lemma priced (h : Lossless s) : s.node.Priced (0 < ·) := by
  obtain ⟨ls, hls, htimely, -⟩ := h
  exact priced_of_exec hls (admissible_of_timely hls htimely)

end Lossless

/-! ## Getting work done -/

section Finite

variable [Fintype W]

namespace Lossless

/-- An admitted worker is given a queue. -/
lemma turns_of_admitted (h : Lossless s) (hlock : s.procLock = none)
    (hpc : s.worker w = .admitted) : Turns w s 1 := by
  have hc := h.coherent
  obtain ⟨ls, hls, -⟩ := id h
  obtain ⟨p, hmem, hready⟩ := ready_of_admitted hls hpc hlock
  obtain ⟨q, hq⟩ := h.priced.inOrderSchedule_isSome (fun _ hx => hx) hc.linked hmem hready
  obtain ⟨-, hne⟩ := CommandQueue.ready_iff.1 (Node.inOrderSchedule_ready hq).2
  obtain ⟨comm, rest, hfront⟩ := List.exists_cons_of_ne_nil hne
  have hstep := step_pick hpc hlock hq hfront
  have hc' := hc.step (step_inv hstep)
  exact (Turns.of_picked hc' hlock (Function.update_self ..)).cons (m := 0) hstep ⟨rfl, trivial⟩ rfl
    (State.backlog_setSkip (q := q) (b := true) rfl).le

/-- A worker that `check` lets through gets a command done. -/
lemma turns_of_holding (h : Lossless s) (hlock : s.procLock = none)
    (hpc : s.worker w = .holding) : Turns w s (if s.node.check w then 1 else 0) := by
  have hstep : step s (.check w) =
      some (s.goto w (if s.node.check w then .admitted else .refused)) :=
    Step.step_eq (.check hpc)
  have hmove : (Label.check w : Label ℝ W T).thread = none ∧
      (Label.check w : Label ℝ W T).Timely := ⟨rfl, trivial⟩
  have hexec : computeNode.exec s [.check w] = _ := computeNode.exec_cons_iff.2 ⟨_, hstep, rfl⟩
  have h' := h.exec hexec (by simpa using hmove)
  cases hcheck : s.node.check w with
  | true =>
      rw [hcheck] at h' hstep
      have hturns := h'.turns_of_admitted (w := w) hlock (Function.update_self ..)
      exact hturns.cons (m := 0) hstep hmove rfl le_rfl
  | false =>
      rw [hcheck] at hstep
      have hturns : Turns w (s.goto w .refused) 0 := .of_refused hlock (Function.update_self ..)
      exact hturns.cons (m := 0) hstep hmove rfl le_rfl

/-- A worker that can have the scheduler lock can finish its turn. -/
lemma turns (h : Lossless s) (hlock : s.procLock = none ∨ s.procLock = some w)
    (hbusy : (s.worker w).busy = true) : Turns w s 0 := by
  have hc := h.coherent
  have hfree : (s.worker w).inEpilogue = false → s.procLock = none := by
    intro hout
    rcases hlock with hlock | hlock
    · exact hlock
    · have hin := (hc.lock w).1 hlock
      rw [hout] at hin
      cases hin
  cases hpc : s.worker w with
  | waiting =>
      rw [hpc] at hbusy
      cases hbusy
  | holding => exact (h.turns_of_holding (hfree (by rw [hpc]; rfl)) hpc).mono (Nat.zero_le _)
  | refused => exact Turns.of_refused (hfree (by rw [hpc]; rfl)) hpc
  | admitted => exact (h.turns_of_admitted (hfree (by rw [hpc]; rfl)) hpc).mono (Nat.zero_le _)
  | picked q comm => exact (Turns.of_picked hc (hfree (by rw [hpc]; rfl)) hpc).mono (Nat.zero_le _)
  | executing q comm =>
      exact (Turns.of_executing hc (hfree (by rw [hpc]; rfl)) hpc).mono (Nat.zero_le _)
  | executed q comm usedTime =>
      exact (Turns.of_executed hc (hfree (by rw [hpc]; rfl)) hpc).mono (Nat.zero_le _)
  | accounted q => exact (Turns.of_accounted hc hpc).mono (Nat.zero_le _)
  | popped q => exact Turns.of_popped hpc
  | tested q b => exact Turns.of_tested hpc

/-- The busy workers can all finish their turns. -/
lemma settles (h : Lossless s) : ∃ ls s', computeNode.exec s ls = some s' ∧
    (∀ l ∈ ls, l.thread = none ∧ l.Timely) ∧ Lossless s' ∧
      ∀ w, (s'.worker w).busy = false := by
  refine computeNode.exists_exec_of_decreases
    (fun t => (Finset.univ.filter fun w => (t.worker w).busy = true).card) ?_ h
  intro t ht hbusy
  -- a worker in its epilogue has the lock and is first
  obtain ⟨w, hlock, hw⟩ : ∃ w, (t.procLock = none ∨ t.procLock = some w) ∧
      (t.worker w).busy = true := by
    cases hprocLock : t.procLock with
    | none =>
        obtain ⟨w, hw⟩ := not_forall.1 hbusy
        exact ⟨w, .inl rfl, by simpa using hw⟩
    | some w =>
        have hin := (ht.coherent.lock w).1 hprocLock
        refine ⟨w, .inr rfl, ?_⟩
        cases hpc : t.worker w with
        | waiting =>
            rw [hpc] at hin
            cases hin
        | _ => rfl
  obtain ⟨ls, t', hexec, hls, -, hworker, -⟩ := ht.turns hlock hw
  refine ⟨ls, t', hexec, hls, ht.exec hexec hls, ?_⟩
  have hcard := card_filter_update w (p := fun w => (t.worker w).busy = true)
    (q := fun w => (t'.worker w).busy = true) fun w' hw' => by
      rw [hworker, Function.update_of_ne hw']
  have hnot : ¬ (t'.worker w).busy = true := by
    rw [hworker, Function.update_self]
    exact Bool.false_ne_true
  rw [if_pos hw, if_neg hnot] at hcard
  omega

/-- When no worker is busy and there is work, there is a token for it. -/
lemma sem_pos (h : Lossless s) (hidle : ∀ w, (s.worker w).busy = false) {q : ℕ}
    (hmem : q ∈ s.node.queues) (hready : (s.node.que q).ready = true) : s.node.sem ≠ 0 := by
  obtain ⟨ls, hls, -, hkeeps⟩ := h
  have hbalance := tokens_balance hls
  have hlost : computeNode.trace losses State.init ls = [] :=
    (computeNode.trace_eq_nil_iff losses hls).2 fun s l hs => by
      simp [losses, hkeeps s l hs]
  have hholders : s.holders = 0 := by
    refine Finset.card_eq_zero.2 (Finset.filter_eq_empty_iff.2 fun w _ hw => ?_)
    rw [WorkerPc.eq_waiting (hidle w)] at hw
    cases hw
  have hpos : 0 < s.node.readyCount := List.countP_pos_iff.2 ⟨q, hmem, hready⟩
  rw [hlost] at hbalance
  simp only [List.length_nil] at hbalance
  omega

/-- With no worker busy one can get a command done. -/
lemma progress [Nonempty W] (h : Lossless s) (hidle : ∀ w, (s.worker w).busy = false)
    (hwork : ¬ s.Drained) : ∃ w, Turns w s 1 := by
  have hc := h.coherent
  have hwaiting : ∀ w, s.worker w = .waiting := fun w => WorkerPc.eq_waiting (hidle w)
  have hlock : s.procLock = none := by
    cases hprocLock : s.procLock with
    | none => rfl
    | some w =>
        have hin := (hc.lock w).1 hprocLock
        rw [hwaiting w] at hin
        cases hin
  obtain ⟨q, hmem, hne⟩ : ∃ q ∈ s.node.queues, (s.node.que q).queue ≠ [] := by
    simpa [State.Drained] using hwork
  -- only a busy worker has its queue skipped
  have hskip : (s.node.que q).skip = false := by
    refine Bool.eq_false_iff.2 fun hskip => ?_
    obtain ⟨w, hw⟩ := hc.claims.claimed q hskip
    rw [hwaiting w] at hw
    cases hw
  have hready : (s.node.que q).ready = true := CommandQueue.ready_iff.2 ⟨hskip, hne⟩
  have hsem := h.sem_pos hidle hmem hready
  obtain ⟨w, hmay⟩ : ∃ w, s.node.MayRun w q := by
    cases hbinding : (s.node.que q).bindingDev with
    | none => exact ⟨Classical.arbitrary W, .inl hbinding⟩
    | some w => exact ⟨w, .inr hbinding⟩
  have hstep : step s (.take w) =
      some ((s.withNode { s.node with sem := s.node.sem - 1 }).goto w .holding) :=
    Step.step_eq (.take (hwaiting w) hsem)
  have hmove : (Label.take w : Label ℝ W T).thread = none ∧
      (Label.take w : Label ℝ W T).Timely := ⟨rfl, trivial⟩
  have hexec : computeNode.exec s [.take w] = _ := computeNode.exec_cons_iff.2 ⟨_, hstep, rfl⟩
  have h' := h.exec hexec (by simpa using hmove)
  have hcheck : ({ s.node with sem := s.node.sem - 1 } : Node ℝ W).check w = true :=
    Node.check_iff.2 ⟨q, hmem, hready, hmay⟩
  have hturns := h'.turns_of_holding (w := w) hlock (Function.update_self ..)
  rw [show ((s.withNode { s.node with sem := s.node.sem - 1 }).goto w .holding).node.check w = true
    from hcheck, if_pos rfl] at hturns
  exact ⟨w, hturns.cons (m := 0) hstep hmove rfl le_rfl⟩

/-- One command after the other gets done. -/
lemma empties [Nonempty W] (h : Lossless s) (hidle : ∀ w, (s.worker w).busy = false) :
    ∃ ls s', computeNode.exec s ls = some s' ∧ (∀ l ∈ ls, l.thread = none ∧ l.Timely) ∧
      s'.Drained := by
  have hstep : ∀ t : State ℝ W T, (Lossless t ∧ ∀ w, (t.worker w).busy = false) → ¬ t.Drained →
      ∃ ls t', computeNode.exec t ls = some t' ∧ (∀ l ∈ ls, l.thread = none ∧ l.Timely) ∧
        (Lossless t' ∧ ∀ w, (t'.worker w).busy = false) ∧ t'.backlog < t.backlog := by
    rintro t ⟨ht, hidle⟩ hwork
    obtain ⟨w, ls, t', hexec, hls, -, hworker, hbacklog⟩ := ht.progress hidle hwork
    refine ⟨ls, t', hexec, hls, ⟨ht.exec hexec hls, fun w' => ?_⟩, by omega⟩
    rw [hworker]
    by_cases hw' : w' = w
    · rw [hw', Function.update_self]
      rfl
    · rw [Function.update_of_ne hw']
      exact hidle w'
  obtain ⟨ls, s', hexec, hls, -, hdrained⟩ :=
    computeNode.exists_exec_of_decreases State.backlog hstep ⟨h, hidle⟩
  exact ⟨ls, s', hexec, hls, hdrained⟩

/-- The workers can empty the queues. -/
lemma drains [Nonempty W] (h : Lossless s) : ∃ ls s', computeNode.exec s ls = some s' ∧
    (∀ l ∈ ls, l.thread = none) ∧ s'.Drained := by
  obtain ⟨ms, t, hms, hmoves, ht, hidle⟩ := h.settles
  obtain ⟨ks, s', hks, hmoves', hdrained⟩ := ht.empties hidle
  refine ⟨ms ++ ks, s', computeNode.exec_append_iff.2 ⟨t, hms, hks⟩, fun l hl => ?_, hdrained⟩
  rcases List.mem_append.1 hl with hl | hl
  · exact (hmoves l hl).1
  · exact (hmoves' l hl).1

end Lossless

variable [Nonempty W]

/-- **Getting done.**  In every state of a run with positive weights and no negative times, the
device workers can empty all queues, as long as each `Exec` ends, if and only if no token was
lost. -/
theorem drains_iff (h : computeNode.exec State.init ls = some s) (hls : ∀ l ∈ ls, l.Timely) :
    (∃ ms s', computeNode.exec s ms = some s' ∧ (∀ l ∈ ms, l.thread = none) ∧ s'.Drained) ↔
      computeNode.AllSteps (fun s l => ¬ s.LosesToken l) State.init ls := by
  constructor
  · rintro ⟨ms, s', hms, -, hdrained⟩
    have hrun := computeNode.exec_append_iff.2 ⟨s, h, hms⟩
    have hwork : s'.node.workCount = 0 :=
      List.countP_eq_zero.2 fun q hq => by simp [CommandQueue.isEmpty, hdrained q hq]
    have hlost := losses_le_workCount hrun
    have hnil : computeNode.trace losses State.init (ls ++ ms) = [] :=
      List.length_eq_zero_iff.1 (by omega)
    rw [computeNode.trace_append losses ms h] at hnil
    have hkeeps := (computeNode.trace_eq_nil_iff losses h).1 (List.append_eq_nil_iff.1 hnil).1
    simpa [losses] using hkeeps
  · intro hkeeps
    have hlossless : Lossless s := ⟨ls, h, hls, hkeeps⟩
    exact hlossless.drains

/-- One client with one command. -/
theorem drains_iff_run : ∃ s, computeNode.exec State.init oneClient = some s ∧
    ((∃ ms s', computeNode.exec s ms = some s' ∧ (∀ l ∈ ms, l.thread = none) ∧ s'.Drained) ↔
      computeNode.AllSteps (fun s l => ¬ s.LosesToken l) State.init oneClient) := by
  have hrun : computeNode.exec State.init oneClient = some _ := rfl
  have htimely : ∀ l ∈ oneClient, l.Timely := by simp [oneClient, Label.Timely]
  exact ⟨_, hrun, drains_iff hrun htimely⟩

end Finite

end ElasticFramework
