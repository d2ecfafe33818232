import ElasticFramework.Properties.Coherence

/-!
# Serial execution of a queue

A command stays at the front of its queue while a device runs it and leaves the list in the
epilogue, so the list alone does not say what has run.  The history does: `pushes`, `begins` and
`ends` read off a run which commands were pushed, which `Exec` calls began and which returned,
each with its queue, and `onQueue` projects to one queue.

`Served P B E s q` relates the three projections to the state.  The pushes are what is done
followed by what is in the list; of the front command `B` and `E` have what the program counter of
the queue's worker says.  `Served` is kept by every step, and `serial_execution` reads the claims
off it: executions begin in push order, at most one at a time, none twice.

## The finish command

`CommandFinish::Exec` posts the semaphore `HandlerFinish` waits on.  Addresses are not reused, so
a post on the address of a session's finish command means that very command has begun, and then
everything pushed before it on its queue has ended.
-/

namespace ElasticFramework

variable {K W T : Type*}

/-! ## What a step says about commands -/

/-- The queue and address of the command a step pushes. -/
def State.pushes (s : State K W T) : Label K W T → List (ℕ × ℕ)
  | .push t _ | .finish t =>
    match (s.session t).queue with
    | some q => [(q, s.nextPtr)]
    | none => []
  | _ => []

/-- The queue and address of the command whose `Exec` begins. -/
def State.begins (s : State K W T) : Label K W T → List (ℕ × ℕ)
  | .beginExec w =>
    match s.worker w with
    | .picked q comm => [(q, comm.ptr)]
    | _ => []
  | _ => []

/-- The queue and address of the command whose `Exec` returns. -/
def State.ends (s : State K W T) : Label K W T → List (ℕ × ℕ)
  | .endExec w _ =>
    match s.worker w with
    | .executing q comm => [(q, comm.ptr)]
    | _ => []
  | _ => []

/-- The addresses of the entries for one queue. -/
def onQueue (q : ℕ) (es : List (ℕ × ℕ)) : List ℕ := (es.filter fun e => e.1 == q).map Prod.snd

lemma onQueue_append (q : ℕ) (es fs : List (ℕ × ℕ)) :
    onQueue q (es ++ fs) = onQueue q es ++ onQueue q fs := by
  simp [onQueue]

lemma onQueue_singleton (q p x : ℕ) : onQueue q [(p, x)] = if p = q then [x] else [] := by
  by_cases hp : p = q
  · simp [onQueue, hp]
  · simp [onQueue, hp]

lemma mem_onQueue {q x : ℕ} {es : List (ℕ × ℕ)} : x ∈ onQueue q es ↔ (q, x) ∈ es := by
  simp [onQueue]

lemma onQueue_sublist (q : ℕ) (es : List (ℕ × ℕ)) : (onQueue q es).Sublist (es.map Prod.snd) :=
  List.filter_sublist.map Prod.snd

/-! ## The state and the history of a queue -/

/-- How many of the commands in the list of its queue the worker has begun to execute. -/
def WorkerPc.begun : WorkerPc K → ℕ
  | .executing _ _ | .executed _ _ _ | .accounted _ => 1
  | _ => 0

/-- How many of them have returned from `Exec`. -/
def WorkerPc.ended : WorkerPc K → ℕ
  | .executed _ _ _ | .accounted _ => 1
  | _ => 0

/-- The addresses of the commands in a list. -/
def ptrs (cs : List (Command K)) : List ℕ := cs.map Command.ptr

/-- `P`, `B` and `E` are the pushes, begins and ends of queue `q` in a run to `s`. -/
def Served (P B E : List ℕ) (s : State K W T) (q : ℕ) : Prop :=
  ∃ done, P = done ++ ptrs (s.node.que q).queue ∧
    ((s.node.que q).skip = false → B = done ∧ E = done) ∧
    ∀ w, (s.worker w).queue = some q →
      B = done ++ ptrs ((s.node.que q).queue.take (s.worker w).begun) ∧
        E = done ++ ptrs ((s.node.que q).queue.take (s.worker w).ended)

namespace Served

variable {P B E : List ℕ} {s s' : State K W T} {q : ℕ}

/-- The list, the flag and the worker of the queue do not move. -/
lemma congr (h : Served P B E s q) (hqueue : (s'.node.que q).queue = (s.node.que q).queue)
    (hskip : (s'.node.que q).skip = (s.node.que q).skip)
    (hworker : ∀ w, (s'.worker w).queue = some q → (s.worker w).queue = some q ∧
      (s'.worker w).begun = (s.worker w).begun ∧ (s'.worker w).ended = (s.worker w).ended) :
    Served P B E s' q := by
  obtain ⟨done, hP, hidle, hbusy⟩ := h
  refine ⟨done, ?_, ?_, ?_⟩
  · rw [hqueue]
    exact hP
  · rw [hskip]
    exact hidle
  · intro w hw
    obtain ⟨hold, hbegun, hended⟩ := hworker w hw
    rw [hqueue, hbegun, hended]
    exact hbusy w hold

/-- Neither the queue object nor its worker changes. -/
lemma frame (h : Served P B E s q) (hsame : s'.node.que q = s.node.que q)
    (hworker : ∀ w, (s'.worker w).queue = some q → s'.worker w = s.worker w) :
    Served P B E s' q := by
  refine h.congr (by rw [hsame]) (by rw [hsame]) fun w hw => ?_
  have hold := hworker w hw
  rw [hold] at hw ⊢
  exact ⟨hw, rfl, rfl⟩

/-- A command is pushed: the front of the list is as before. -/
lemma push (h : Served P B E s q) (hc : Coherent s) {comm : Command K}
    (hque : s'.node.que q = { s.node.que q with queue := (s.node.que q).queue ++ [comm] })
    (hworker : s'.worker = s.worker) : Served (P ++ [comm.ptr]) B E s' q := by
  obtain ⟨done, hP, hidle, hbusy⟩ := h
  have hqueue : (s'.node.que q).queue = (s.node.que q).queue ++ [comm] := by rw [hque]
  have hskip : (s'.node.que q).skip = (s.node.que q).skip := by rw [hque]
  refine ⟨done, ?_, ?_, ?_⟩
  · rw [hP, hqueue]
    simp [ptrs]
  · rw [hskip]
    exact hidle
  · intro w hw
    rw [hworker] at hw ⊢
    obtain ⟨hB, hE⟩ := hbusy w hw
    have hfits := (hc.claims.claim w q hw).2.2
    -- A command that has begun is in the list already.
    have hbegun : (s.worker w).begun ≤ (s.node.que q).queue.length := by
      cases hpc : s.worker w with
      | executing p c =>
          rw [hpc] at hfits
          exact List.length_pos_iff.2 (by rintro hnil; simp [WorkerPc.Fits, hnil] at hfits)
      | executed p c u =>
          rw [hpc] at hfits
          exact List.length_pos_iff.2 (by rintro hnil; simp [WorkerPc.Fits, hnil] at hfits)
      | accounted p =>
          rw [hpc] at hfits
          exact List.length_pos_iff.2 hfits
      | _ => exact Nat.zero_le _
    have hended : (s.worker w).ended ≤ (s.worker w).begun := by
      cases s.worker w <;> simp [WorkerPc.begun, WorkerPc.ended]
    rw [hqueue, List.take_append_of_le_length hbegun,
      List.take_append_of_le_length (hended.trans hbegun)]
    exact ⟨hB, hE⟩

variable [DecidableEq W]

/-- A worker that moves to another queue or to none is not the worker of `q`. -/
lemma elsewhere (h : Served P B E s q) {w : W} {pc : WorkerPc K}
    (hsame : s'.node.que q = s.node.que q)
    (hworker : s'.worker = Function.update s.worker w pc) (hpc : pc.queue ≠ some q) :
    Served P B E s' q := by
  refine h.frame hsame fun w' hw' => ?_
  have hne : w' ≠ w := by
    rintro rfl
    rw [hworker, Function.update_self] at hw'
    exact hpc hw'
  rw [hworker, Function.update_of_ne hne]

/-- A worker moves and stands to its queue as before. -/
lemma advance (h : Served P B E s q) {w : W} {pc : WorkerPc K} (hque : s'.node.que = s.node.que)
    (hworker : s'.worker = Function.update s.worker w pc)
    (hqueue : pc.queue = (s.worker w).queue) (hbegun : pc.begun = (s.worker w).begun)
    (hended : pc.ended = (s.worker w).ended) : Served P B E s' q := by
  refine h.congr (by rw [hque]) (by rw [hque]) fun w' hw' => ?_
  rw [hworker] at hw' ⊢
  rw [apply_update_eq hqueue] at hw'
  exact ⟨hw', apply_update_eq hbegun w', apply_update_eq hended w'⟩

/-- The front command is begun, ended, or removed after it has ended: the worker of the queue
moves. -/
lemma move (h : Served P B E s q) (pc : WorkerPc K) {B' E' : List ℕ} {w : W}
    (hc : Coherent s) (hw : (s.worker w).queue = some q)
    (hworker : s'.worker = Function.update s.worker w pc)
    (hskip : (s'.node.que q).skip = true)
    (hmove : ∀ done, P = done ++ ptrs (s.node.que q).queue →
      B = done ++ ptrs ((s.node.que q).queue.take (s.worker w).begun) →
      E = done ++ ptrs ((s.node.que q).queue.take (s.worker w).ended) →
      ∃ done', P = done' ++ ptrs (s'.node.que q).queue ∧
        B' = done' ++ ptrs ((s'.node.que q).queue.take pc.begun) ∧
        E' = done' ++ ptrs ((s'.node.que q).queue.take pc.ended)) :
    Served P B' E' s' q := by
  obtain ⟨done, hP, -, hbusy⟩ := h
  obtain ⟨hB, hE⟩ := hbusy w hw
  obtain ⟨done', hP', hB', hE'⟩ := hmove done hP hB hE
  refine ⟨done', hP', fun hidle => ?_, fun w' hw' => ?_⟩
  · rw [hskip] at hidle
    cases hidle
  · have hself : w' = w := by
      by_contra hne
      rw [hworker, Function.update_of_ne hne] at hw'
      exact hne (hc.claims.unique w' w q hw' hw)
    subst hself
    rw [hworker, Function.update_self]
    exact ⟨hB', hE'⟩

end Served

/-- The three lists of a queue: the front command may have begun, or begun and ended. -/
lemma Served.shape {P B E : List ℕ} {q : ℕ} (h : Served P B E s q) (hc : Coherent s) :
    ∃ done running rest, P = done ++ (running ++ rest) ∧ running.length ≤ 1 ∧
      B = done ++ running ∧ (E = done ∨ E = done ++ running) := by
  obtain ⟨done, hP, hidle, hbusy⟩ := h
  cases hskip : (s.node.que q).skip with
  | false =>
      obtain ⟨hB, hE⟩ := hidle hskip
      exact ⟨done, [], ptrs (s.node.que q).queue, hP, Nat.zero_le _, by simp [hB], Or.inl hE⟩
  | true =>
      obtain ⟨w, hw⟩ := hc.claims.claimed q hskip
      obtain ⟨hB, hE⟩ := hbusy w hw
      refine ⟨done, ptrs ((s.node.que q).queue.take (s.worker w).begun),
        ptrs ((s.node.que q).queue.drop (s.worker w).begun), ?_, ?_, hB, ?_⟩
      · rw [hP, ptrs, ptrs, ptrs, ← List.map_append, List.take_append_drop]
      · have hle : (s.worker w).begun ≤ 1 := by
          cases s.worker w <;> simp [WorkerPc.begun]
        rw [ptrs, List.length_map, List.length_take]
        omega
      · have hended : (s.worker w).ended = 0 ∨ (s.worker w).ended = (s.worker w).begun := by
          cases s.worker w <;> simp [WorkerPc.begun, WorkerPc.ended]
        rcases hended with hzero | hsame
        · exact Or.inl (by simpa [hzero, ptrs] using hE)
        · exact Or.inr (by rw [hE, hsame])

/-- The command a worker took from the front is still there. -/
lemma WorkerPc.Fits.take_one {D : Type*} {cq : CommandQueue K D} {comm : Command K}
    (h : cq.queue.head? = some comm) : ptrs (cq.queue.take 1) = [comm.ptr] := by
  obtain ⟨rest, hrest⟩ := List.head?_eq_some_iff.1 h
  simp [hrest, ptrs]

/-! ## One step -/

namespace Served

variable {P B E : List ℕ} {s s' : State K W T} {q : ℕ}

/-- At a new address nothing was pushed, and nobody has it. -/
lemma createQueue [Arith K] (h : Served P B E s q) (hc : Coherent s)
    (hfresh : (s.node.que s.node.nextQueue).queue = []) {v : ℕ}
    (hnode : s'.node = s.node.createQueue v) (hworker : s'.worker = s.worker) :
    Served P B E s' q := by
  by_cases hq : q = s.node.nextQueue
  · subst hq
    obtain ⟨done, hP, hidle, -⟩ := h
    have hfree : ∀ w, (s.worker w).queue ≠ some s.node.nextQueue := fun w hw =>
      (hc.claims.lt_nextQueue hc.linked hw).false
    refine ⟨done, ?_, fun _ => hidle (hc.claims.unskipped hfree), fun w hw => ?_⟩
    · simpa [hnode, hfresh, Node.createQueue, CommandQueue.new, ptrs] using hP
    · rw [hworker] at hw
      exact absurd hw (hfree w)
  · exact h.frame (by simp [hnode, Node.createQueue, hq]) fun w _ => by rw [hworker]

variable [DecidableEq W] {w : W} {p : ℕ}

/-- The picked queue was idle, and its worker has begun nothing yet. -/
lemma pick (h : Served P B E s q) (hc : Coherent s) {comm : Command K}
    (hskip : (s.node.que p).skip = false) (hnode : s'.node = s.node.setSkip p true)
    (hworker : s'.worker = Function.update s.worker w (.picked p comm)) : Served P B E s' q := by
  by_cases hp : p = q
  · subst hp
    obtain ⟨done, hP, hidle, -⟩ := h
    obtain ⟨hB, hE⟩ := hidle hskip
    refine ⟨done, ?_, fun hdown => ?_, fun w' hw' => ?_⟩
    · simpa [hnode] using hP
    · simp [hnode, Node.setSkip] at hdown
    · have hself : w' = w := by
        by_contra hne
        rw [hworker, Function.update_of_ne hne] at hw'
        exact hc.claims.unclaimed hskip w' hw'
      subst hself
      simp [hworker, WorkerPc.begun, WorkerPc.ended, ptrs, hB, hE]
  · exact h.elsewhere (by simp [hnode, Node.setSkip, Ne.symm hp]) hworker
      (by simpa [WorkerPc.queue] using hp)

/-- `Pop` moves the front command from the list to what is done. -/
lemma pop (h : Served P B E s q) (hc : Coherent s) (hpc : s.worker w = .accounted p)
    (hnode : s'.node = s.node.pop p)
    (hworker : s'.worker = Function.update s.worker w (.popped p)) : Served P B E s' q := by
  by_cases hp : p = q
  · subst hp
    have hw : (s.worker w).queue = some p := by simp [hpc, WorkerPc.queue]
    obtain ⟨-, hskip, hfits⟩ := hc.claims.claim w p hw
    rw [hpc] at hfits
    obtain ⟨comm, rest, hfront⟩ := List.exists_cons_of_ne_nil hfits
    refine h.move (.popped p) hc hw hworker ?_ fun done hP hB hE => ⟨done ++ [comm.ptr], ?_, ?_, ?_⟩
    · simpa [hnode, Node.pop] using hskip
    · simpa [hnode, Node.pop, hfront, ptrs] using hP
    · simpa [hpc, hfront, WorkerPc.begun, ptrs] using hB
    · simpa [hpc, hfront, WorkerPc.ended, ptrs] using hE
  · exact h.elsewhere (by simp [hnode, Node.pop, Ne.symm hp]) hworker
      (by simpa [WorkerPc.queue] using hp)

/-- A queue is given back with nothing begun that is not done. -/
lemma clearSkip (h : Served P B E s q) (hc : Coherent s) {b : Bool}
    (hpc : s.worker w = .tested p b) (hnode : s'.node = s.node.setSkip p false)
    (hworker : s'.worker = Function.update s.worker w .waiting) : Served P B E s' q := by
  by_cases hp : p = q
  · subst hp
    have hw : (s.worker w).queue = some p := by simp [hpc, WorkerPc.queue]
    obtain ⟨done, hP, -, hbusy⟩ := h
    obtain ⟨hB, hE⟩ := hbusy w hw
    refine ⟨done, ?_, fun _ => ?_, fun w' hw' => ?_⟩
    · simpa [hnode] using hP
    · rw [hB, hE, hpc]
      simp [WorkerPc.begun, WorkerPc.ended, ptrs]
    · have hne : w' ≠ w := by
        rintro rfl
        simp [hworker, WorkerPc.queue] at hw'
      rw [hworker, Function.update_of_ne hne] at hw'
      exact absurd (hc.claims.unique w' w p hw' hw) hne
  · exact h.elsewhere (by simp [hnode, Node.setSkip, Ne.symm hp]) hworker
      (by simp [WorkerPc.queue])

end Served

section Push

variable {s : State K W T} {P B E : List (ℕ × ℕ)}

lemma served_push (hc : Coherent s) (h : ∀ q, Served (onQueue q P) (onQueue q B) (onQueue q E) s q)
    (s' : State K W T) {p : ℕ} (comm : Command K) (hnode : s'.node = s.node.push p comm)
    (hworker : s'.worker = s.worker) (q : ℕ) :
    Served (onQueue q (P ++ [(p, comm.ptr)])) (onQueue q B) (onQueue q E) s' q := by
  rw [onQueue_append, onQueue_singleton]
  by_cases hp : p = q
  · subst hp
    rw [if_pos rfl]
    exact (h p).push hc (by simp [hnode]) hworker
  · rw [if_neg hp, List.append_nil]
    refine (h q).frame (by simp [hnode, Ne.symm hp]) fun w _ => ?_
    rw [hworker]

/-- The command of a worker is at the front of the queue it has picked. -/
lemma front_of_worker (hc : Coherent s) {w : W} {p : ℕ} {comm : Command K} {pc : WorkerPc K}
    (hpc : s.worker w = pc) (hq : pc.queue = some p)
    (hfits : pc.Fits (s.node.que p) → (s.node.que p).queue.head? = some comm) :
    (s.worker w).queue = some p ∧ (s.node.que p).skip = true ∧
      ptrs ((s.node.que p).queue.take 1) = [comm.ptr] := by
  have hw : (s.worker w).queue = some p := by rw [hpc, hq]
  obtain ⟨-, hskip, hclaim⟩ := hc.claims.claim w p hw
  rw [hpc] at hclaim
  exact ⟨hw, hskip, WorkerPc.Fits.take_one (hfits hclaim)⟩

variable [DecidableEq W] {w : W} {p : ℕ} {comm : Command K}

/-- `Exec` begins on the front command of the queue of the worker. -/
lemma served_begin (hc : Coherent s)
    (h : ∀ q, Served (onQueue q P) (onQueue q B) (onQueue q E) s q) (s' : State K W T)
    (hpc : s.worker w = .picked p comm) (hnode : s'.node = s.node)
    (hworker : s'.worker = Function.update s.worker w (.executing p comm)) (q : ℕ) :
    Served (onQueue q P) (onQueue q (B ++ [(p, comm.ptr)])) (onQueue q E) s' q := by
  rw [onQueue_append, onQueue_singleton]
  by_cases hp : p = q
  · subst hp
    rw [if_pos rfl]
    obtain ⟨hw, hskip, hfront⟩ := front_of_worker hc hpc rfl id
    refine (h p).move (.executing p comm) hc hw hworker (by rw [hnode, hskip])
      fun done hP hB hE => ⟨done, by rw [hnode, hP], ?_, ?_⟩
    · rw [hB, hpc, hnode]
      simp only [WorkerPc.begun, hfront, List.take_zero]
      simp [ptrs]
    · rw [hE, hpc, hnode]
      rfl
  · rw [if_neg hp, List.append_nil]
    exact (h q).elsewhere (by rw [hnode]) hworker (by simpa [WorkerPc.queue] using hp)

/-- `Exec` returns. -/
lemma served_end (hc : Coherent s)
    (h : ∀ q, Served (onQueue q P) (onQueue q B) (onQueue q E) s q) (s' : State K W T)
    {usedTime : K} (hpc : s.worker w = .executing p comm) (hnode : s'.node = s.node)
    (hworker : s'.worker = Function.update s.worker w (.executed p comm usedTime)) (q : ℕ) :
    Served (onQueue q P) (onQueue q B) (onQueue q (E ++ [(p, comm.ptr)])) s' q := by
  rw [onQueue_append, onQueue_singleton]
  by_cases hp : p = q
  · subst hp
    rw [if_pos rfl]
    obtain ⟨hw, hskip, hfront⟩ := front_of_worker hc hpc rfl id
    refine (h p).move (.executed p comm usedTime) hc hw hworker (by rw [hnode, hskip])
      fun done hP hB hE => ⟨done, by rw [hnode, hP], ?_, ?_⟩
    · rw [hB, hpc, hnode]
      rfl
    · rw [hE, hpc, hnode]
      simp only [WorkerPc.ended, hfront, List.take_zero]
      simp [ptrs]
  · rw [if_neg hp, List.append_nil]
    exact (h q).elsewhere (by rw [hnode]) hworker (by simpa [WorkerPc.queue] using hp)

end Push

section Step

variable [Arith K] [DecidableEq W] [DecidableEq T] {s s' : State K W T} {l : Label K W T}

/-- A step that neither pushes nor begins nor ends a command. -/
lemma served_quiet (hc : Coherent s) (hs : Step s l s')
    (hfresh : (s.node.que s.node.nextQueue).queue = []) {q : ℕ} {P B E : List ℕ}
    (hpushes : s.pushes l = []) (hbegins : s.begins l = []) (hends : s.ends l = [])
    (h : Served P B E s q) : Served P B E s' q := by
  cases hs with
  | connect hpc hlock => exact h.frame rfl fun _ _ => rfl
  | createQueue hpc hlock => exact h.createQueue hc hfresh rfl rfl
  | @bindDev t dev v p hpc =>
      refine h.congr (Node.setBindingDev_queue _ _ _ _) ?_ fun w hw => ⟨hw, rfl, rfl⟩
      refine Node.setQueue_congr (f := CommandQueue.skip) ?_ q
      rfl
  | @push t kind v p hpc hkind => simp [State.pushes, hpc, SessionPc.queue] at hpushes
  | @finish t v p hpc => simp [State.pushes, hpc, SessionPc.queue] at hpushes
  | passWait hpc hsem => exact h.frame rfl fun _ _ => rfl
  | seeEmpty hpc hempty => exact h.frame rfl fun _ _ => rfl
  | teardown hpc hlock =>
      exact h.frame (by simp [State.enter, State.withNode, Node.destroyQueue]) fun _ _ => rfl
  | take hpc hsem => exact h.elsewhere rfl rfl (by simp [WorkerPc.queue])
  | check hpc =>
      refine h.elsewhere rfl rfl ?_
      split <;> simp [WorkerPc.queue]
  | giveBack hpc => exact h.elsewhere rfl rfl (by simp [WorkerPc.queue])
  | pick hpc hlock hq hfront =>
      have hskip := (CommandQueue.ready_iff.1 (Node.inOrderSchedule_ready hq).2).1
      exact h.pick hc hskip rfl rfl
  | @beginExec w p comm hpc => simp [State.begins, hpc] at hbegins
  | @endExec w p comm usedTime hpc => simp [State.ends, hpc] at hends
  | account hpc hlock =>
      exact h.advance rfl rfl (by simp [hpc, WorkerPc.queue]) (by simp [hpc, WorkerPc.begun])
        (by simp [hpc, WorkerPc.ended])
  | pop hpc => exact h.pop hc hpc rfl rfl
  | testEmpty hpc hempty =>
      exact h.advance rfl rfl (by simp [hpc, WorkerPc.queue]) (by simp [hpc, WorkerPc.begun])
        (by simp [hpc, WorkerPc.ended])
  | testNonempty hpc hempty =>
      exact h.advance rfl rfl (by simp [hpc, WorkerPc.queue]) (by simp [hpc, WorkerPc.begun])
        (by simp [hpc, WorkerPc.ended])
  | clearSkip hpc => exact h.clearSkip hc hpc rfl rfl

lemma served_step (hc : Coherent s) (hs : Step s l s')
    (hfresh : (s.node.que s.node.nextQueue).queue = []) {P B E : List (ℕ × ℕ)}
    (h : ∀ q, Served (onQueue q P) (onQueue q B) (onQueue q E) s q) (q : ℕ) :
    Served (onQueue q (P ++ s.pushes l)) (onQueue q (B ++ s.begins l))
      (onQueue q (E ++ s.ends l)) s' q := by
  have hquiet := served_quiet hc hs hfresh (q := q) (P := onQueue q P) (B := onQueue q B)
    (E := onQueue q E)
  cases hs with
  | @push t kind v p hpc hkind =>
      have hpush : s.pushes (.push t kind) = [(p, s.nextPtr)] := by
        simp [State.pushes, hpc, SessionPc.queue]
      rw [hpush]
      simpa [State.begins, State.ends, Command.new] using
        served_push hc h (s.pushNew p kind) (Command.new s.nextPtr kind) rfl rfl q
  | @finish t v p hpc =>
      have hpush : s.pushes (.finish t) = [(p, s.nextPtr)] := by
        simp [State.pushes, hpc, SessionPc.queue]
      rw [hpush]
      simpa [State.begins, State.ends, Command.new] using
        served_push hc h ((s.pushNew p .finish).enter t (.finishing v p s.nextPtr))
          (Command.new s.nextPtr .finish) rfl rfl q
  | @beginExec w p comm hpc =>
      have hbegin : s.begins (.beginExec w) = [(p, comm.ptr)] := by simp [State.begins, hpc]
      rw [hbegin]
      simpa [State.pushes, State.ends] using
        served_begin hc h ((s.exec comm).goto w (.executing p comm)) hpc (by simp [State.goto])
          (by simp [State.goto]) q
  | @endExec w p comm usedTime hpc =>
      have hend : s.ends (.endExec w usedTime) = [(p, comm.ptr)] := by simp [State.ends, hpc]
      rw [hend]
      simpa [State.pushes, State.begins] using
        served_end hc h (s.goto w (.executed p comm usedTime)) hpc rfl rfl q
  | _ => simpa [State.pushes, State.begins, State.ends] using hquiet rfl rfl rfl (h q)

/-! ## The history of a run -/

/-- `P`, `B` and `E` are the pushes, begins and ends of a run to `s`. -/
structure History (P B E : List (ℕ × ℕ)) (s : State K W T) : Prop where
  served : ∀ q, Served (onQueue q P) (onQueue q B) (onQueue q E) s q
  fresh : ∀ q, s.node.nextQueue ≤ q → (s.node.que q).queue = []
  nodup : (P.map Prod.snd).Nodup
  bound : ∀ e ∈ P, e.2 < s.nextPtr
  waits : ∀ t v q p, s.session t = .finishing v q p → (q, p) ∈ P
  posts : ∀ p, s.finishSem p ≠ 0 → ∃ q, (q, p) ∈ B

lemma fresh_step (hc : Coherent s) (hs : Step s l s')
    (h : ∀ q, s.node.nextQueue ≤ q → (s.node.que q).queue = []) :
    ∀ q, s'.node.nextQueue ≤ q → (s'.node.que q).queue = [] := by
  have hlive : ∀ t p q, (s.session t).queue = some p → s.node.nextQueue ≤ q → q ≠ p := by
    rintro t p q hp hq rfl
    have hlt := hc.linked.freshQueues q (hc.sessions.queueMem t q hp)
    omega
  intro q hq
  cases hs with
  | createQueue hpc hlock =>
      have hlt : s.node.nextQueue < q := hq
      have hold := h q hlt.le
      simpa [State.enter, State.withNode, Node.createQueue, hlt.ne'] using hold
  | bindDev hpc => exact (Node.setBindingDev_queue _ _ _ _).trans (h q hq)
  | @push t kind v p hpc hkind =>
      have hlt : s.node.nextQueue ≤ q := by simpa [State.pushNew] using hq
      have hne := hlive t p q (by simp [hpc, SessionPc.queue]) hlt
      simpa [State.pushNew, hne] using h q hlt
  | @finish t v p hpc =>
      have hlt : s.node.nextQueue ≤ q := by simpa [State.enter, State.pushNew] using hq
      have hne := hlive t p q (by simp [hpc, SessionPc.queue]) hlt
      simpa [State.enter, State.pushNew, hne] using h q hlt
  | teardown hpc hlock =>
      have hlt : s.node.nextQueue ≤ q := by
        simpa [State.enter, State.withNode, Node.destroyQueue] using hq
      simpa [State.enter, State.withNode, Node.destroyQueue] using h q hlt
  | pick hpc hlock hq' hfront => exact (Node.setSkip_queue _ _ _ _).trans (h q hq)
  | beginExec hpc =>
      have hlt : s.node.nextQueue ≤ q := by simpa [State.goto] using hq
      simpa [State.goto] using h q hlt
  | @pop w p hpc =>
      have hold := h q hq
      by_cases hp : q = p
      · subst hp
        simp [State.goto, State.withNode, Node.pop, hold]
      · simpa [State.goto, State.withNode, Node.pop, hp] using hold
  | clearSkip hpc => exact (Node.setSkip_queue _ _ _ _).trans (h q hq)
  | _ => exact h q hq

/-- A step gives each pushed command the next address. -/
lemma pushes_step (hs : Step s l s') :
    s.pushes l = [] ∧ s'.nextPtr = s.nextPtr ∨
      ∃ q, s.pushes l = [(q, s.nextPtr)] ∧ s'.nextPtr = s.nextPtr + 1 := by
  cases hs with
  | @push t kind v q hpc hkind =>
      exact Or.inr ⟨q, by simp [State.pushes, hpc, SessionPc.queue], rfl⟩
  | @finish t v q hpc => exact Or.inr ⟨q, by simp [State.pushes, hpc, SessionPc.queue], rfl⟩
  | @beginExec w q comm hpc =>
      refine Or.inl ⟨rfl, ?_⟩
      simp only [State.goto, State.exec]
      split <;> rfl
  | _ => exact Or.inl ⟨rfl, rfl⟩

lemma waits_step (hs : Step s l s') {P : List (ℕ × ℕ)}
    (h : ∀ t v q p, s.session t = .finishing v q p → (q, p) ∈ P) :
    ∀ t v q p, s'.session t = .finishing v q p → (q, p) ∈ P ++ s.pushes l := by
  have hold : ∀ {t t' : T} {pc : SessionPc} {v q p : ℕ}, (∀ v q p, pc ≠ .finishing v q p) →
      Function.update s.session t pc t' = .finishing v q p → (q, p) ∈ P := by
    intro t t' pc v q p hpc ht'
    have hne : t' ≠ t := by
      rintro rfl
      rw [Function.update_self] at ht'
      exact hpc v q p ht'
    rw [Function.update_of_ne hne] at ht'
    exact h t' v q p ht'
  intro t' v' q' p' ht'
  cases hs with
  | @finish t v q hpc =>
      have hpush : s.pushes (.finish t) = [(q, s.nextPtr)] := by
        simp [State.pushes, hpc, SessionPc.queue]
      rw [hpush]
      by_cases ht : t' = t
      · subst ht
        simp only [State.enter, Function.update_self, SessionPc.finishing.injEq] at ht'
        obtain ⟨-, rfl, rfl⟩ := ht'
        exact List.mem_append_right _ (List.mem_singleton_self _)
      · refine List.mem_append_left _ (h t' v' q' p' ?_)
        simpa [State.enter, State.pushNew, ht] using ht'
  | connect hpc hlock => exact List.mem_append_left _ (hold (by simp) ht')
  | createQueue hpc hlock => exact List.mem_append_left _ (hold (by simp) ht')
  | bindDev hpc => exact List.mem_append_left _ (hold (by simp) ht')
  | passWait hpc hsem => exact List.mem_append_left _ (hold (by simp) ht')
  | seeEmpty hpc hempty => exact List.mem_append_left _ (hold (by simp) ht')
  | teardown hpc hlock => exact List.mem_append_left _ (hold (by simp) ht')
  | beginExec hpc =>
      refine List.mem_append_left _ (h t' v' q' p' ?_)
      simpa [State.goto] using ht'
  | _ => exact List.mem_append_left _ (h t' v' q' p' ht')

/-- Only `CommandFinish::Exec` posts, on its own address. -/
lemma posts_step (hs : Step s l s') {B : List (ℕ × ℕ)}
    (h : ∀ p, s.finishSem p ≠ 0 → ∃ q, (q, p) ∈ B) :
    ∀ p, s'.finishSem p ≠ 0 → ∃ q, (q, p) ∈ B ++ s.begins l := by
  have hgrow : ∀ p, s.finishSem p ≠ 0 → ∃ q, (q, p) ∈ B ++ s.begins l := by
    intro p hp
    obtain ⟨q, hq⟩ := h p hp
    exact ⟨q, List.mem_append_left _ hq⟩
  intro p hp
  cases hs with
  | @passWait t v q p' hpc hsem =>
      refine hgrow p ?_
      by_cases hpp : p = p'
      · rw [hpp]
        exact hsem
      · simpa [State.enter, hpp] using hp
  | @beginExec w q comm hpc =>
      by_cases hptr : p = comm.ptr
      · refine ⟨q, List.mem_append_right _ ?_⟩
        simp [State.begins, hpc, hptr]
      · refine hgrow p ?_
        by_cases hkind : comm.kind = .finish
        · simpa [State.goto, State.exec, hkind, hptr] using hp
        · simpa [State.goto, State.exec, hkind] using hp
  | _ => exact hgrow p hp

lemma History.step {P B E : List (ℕ × ℕ)} (h : History P B E s) (hc : Coherent s)
    (hs : Step s l s') :
    History (P ++ s.pushes l) (B ++ s.begins l) (E ++ s.ends l) s' where
  served := served_step hc hs (h.fresh _ le_rfl) h.served
  fresh := fresh_step hc hs h.fresh
  nodup := by
    obtain ⟨hnone, -⟩ | ⟨q, hpush, -⟩ := pushes_step hs
    · simpa [hnone] using h.nodup
    · rw [hpush, List.map_append, List.map_singleton]
      refine List.nodup_append.2 ⟨h.nodup, List.nodup_singleton _, ?_⟩
      intro x hx y hy
      obtain ⟨e, he, rfl⟩ := List.mem_map.1 hx
      have hlt := h.bound e he
      rw [List.mem_singleton] at hy
      omega
  bound := by
    intro e he
    obtain ⟨hnone, hptr⟩ | ⟨q, hpush, hptr⟩ := pushes_step hs
    · rw [hnone, List.append_nil] at he
      rw [hptr]
      exact h.bound e he
    · rw [hptr]
      rw [hpush] at he
      rcases List.mem_append.1 he with he | he
      · have hlt := h.bound e he
        omega
      · rw [List.mem_singleton.1 he]
        exact Nat.lt_succ_self _
  waits := waits_step hs h.waits
  posts := posts_step hs h.posts

omit [DecidableEq W] [DecidableEq T] in
lemma History.init : History [] [] [] (State.init : State K W T) where
  served := fun q => ⟨[], by simp [State.init, Node.init, CommandQueue.new, onQueue, ptrs],
    fun _ => ⟨rfl, rfl⟩, fun w hw => by simp [State.init, WorkerPc.queue] at hw⟩
  fresh := by simp [State.init, Node.init, CommandQueue.new]
  nodup := List.nodup_nil
  bound := by simp
  waits := by simp [State.init]
  posts := by simp [State.init]

end Step

/-! ## Runs -/

section Runs

variable [Arith K] [DecidableEq W] [DecidableEq T] {s : State K W T} {ls : List (Label K W T)}

/-- The commands pushed on queue `q`, in order. -/
def pushedOn (ls : List (Label K W T)) (q : ℕ) : List ℕ :=
  onQueue q (computeNode.trace State.pushes State.init ls)

/-- The commands of queue `q` whose `Exec` has begun, in order. -/
def begunOn (ls : List (Label K W T)) (q : ℕ) : List ℕ :=
  onQueue q (computeNode.trace State.begins State.init ls)

/-- The commands of queue `q` whose `Exec` has returned, in order. -/
def endedOn (ls : List (Label K W T)) (q : ℕ) : List ℕ :=
  onQueue q (computeNode.trace State.ends State.init ls)

theorem history_of_exec (h : computeNode.exec State.init ls = some s) :
    History (computeNode.trace State.pushes State.init ls)
      (computeNode.trace State.begins State.init ls)
      (computeNode.trace State.ends State.init ls) s := by
  refine computeNode.exec_induction (P := fun ls s =>
    History (computeNode.trace State.pushes State.init ls)
      (computeNode.trace State.begins State.init ls)
      (computeNode.trace State.ends State.init ls) s) History.init ?_ h
  intro ls s l s' hs ih hl
  rw [computeNode.trace_snoc _ l hs, computeNode.trace_snoc _ l hs, computeNode.trace_snoc _ l hs]
  exact ih.step (coherent_of_exec hs) (step_inv hl)

/-- The semaphore a client passes was posted, so its finish command has begun, on its own queue. -/
lemma finish_begun (h : computeNode.exec State.init ls = some s) {t : T} {v q p : ℕ}
    (ht : s.session t = .finishing v q p) (hpass : computeNode.step s (.passWait t) = some s') :
    p ∈ begunOn ls q := by
  have hh := history_of_exec h
  have hsem : s.finishSem p ≠ 0 := by
    cases step_inv hpass with
    | passWait hpc hsem =>
        rw [ht] at hpc
        cases hpc
        exact hsem
  obtain ⟨q', hq'⟩ := hh.posts p hsem
  have hpushed : (q, p) ∈ computeNode.trace State.pushes State.init ls := hh.waits t v q p ht
  have hpushed' : (q', p) ∈ computeNode.trace State.pushes State.init ls := by
    obtain ⟨done, running, rest, hP, -, hB, -⟩ := (hh.served q').shape (coherent_of_exec h)
    rw [← mem_onQueue] at hq' ⊢
    rw [hB] at hq'
    rw [hP, ← List.append_assoc]
    exact List.mem_append_left _ hq'
  have hqq : (q', p) = (q, p) := List.inj_on_of_nodup_map hh.nodup hpushed' hpushed rfl
  rw [begunOn, mem_onQueue, ← hqq]
  exact hq'

/-- With one command at work at most, what was pushed before one that has begun has ended. -/
lemma before_of_begun {done running rest E : List ℕ} (hlen : running.length ≤ 1)
    (hE : E = done ∨ E = done ++ running) {p : ℕ} (hp : p ∈ done ++ running) :
    ∃ before after, done ++ (running ++ rest) = before ++ p :: after ∧ before <+: E := by
  have hdone : done <+: E := by
    rcases hE with rfl | rfl
    · exact List.prefix_rfl
    · exact List.prefix_append _ _
  rcases List.mem_append.1 hp with hmem | hmem
  · obtain ⟨before, after, rfl⟩ := List.append_of_mem hmem
    exact ⟨before, after ++ (running ++ rest), by simp, (List.prefix_append _ _).trans hdone⟩
  · obtain ⟨x, rfl⟩ : ∃ x, running = [x] :=
      List.length_eq_one_iff.1 (le_antisymm hlen (List.length_pos_of_mem hmem))
    obtain rfl := List.mem_singleton.1 hmem
    exact ⟨done, rest, rfl, hdone⟩

/-- What serial execution says of queue `q` in the state `s` a run leads to. -/
structure Serial (ls : List (Label K W T)) (s : State K W T) (q : ℕ) : Prop where
  /-- Commands begin in the order they were pushed. -/
  inOrder : begunOn ls q <+: pushedOn ls q
  /-- Commands end in the order they began, and at most one has begun and not ended. -/
  ended : endedOn ls q <+: begunOn ls q
  oneAtATime : (begunOn ls q).length ≤ (endedOn ls q).length + 1
  /-- No command is pushed twice, so none begins twice. -/
  once : (pushedOn ls q).Nodup
  exclusive : ∀ w w' c c', s.worker w = .executing q c → s.worker w' = .executing q c' → w = w'
  /-- `CommandFinish::Wait` returns only after everything pushed before has ended. -/
  finish : ∀ t s' v p, s.session t = .finishing v q p →
    computeNode.step s (.passWait t) = some s' →
    ∃ before after, pushedOn ls q = before ++ p :: after ∧ before <+: endedOn ls q

/-- **Serial execution of a queue.**  In every reachable state, for every queue. -/
theorem serial_execution (h : computeNode.exec State.init ls = some s) (q : ℕ) :
    Serial ls s q := by
  have hc := coherent_of_exec h
  have hh := history_of_exec h
  have hnodup : ∀ q, (pushedOn ls q).Nodup := fun q => (onQueue_sublist q _).nodup hh.nodup
  obtain ⟨done, running, rest, hP, hlen, hB, hE⟩ := (hh.served q).shape hc
  constructor
  case inOrder => exact ⟨rest, by rw [begunOn, pushedOn, hP, hB, List.append_assoc]⟩
  case ended =>
    rw [endedOn, begunOn, hB]
    rcases hE with hE | hE
    · exact ⟨running, by rw [hE]⟩
    · exact ⟨[], by rw [hE, List.append_nil]⟩
  case oneAtATime =>
    rw [endedOn, begunOn, hB, List.length_append]
    rcases hE with hE | hE
    · rw [hE]
      omega
    · rw [hE, List.length_append]
      omega
  case once => exact hnodup q
  case exclusive =>
    intro w w' c c' hw hw'
    exact hc.claims.unique w w' q (by simp [hw, WorkerPc.queue]) (by simp [hw', WorkerPc.queue])
  case finish =>
    intro t s' v p ht hpass
    have hbegun := finish_begun h ht hpass
    rw [begunOn, hB] at hbegun
    rw [pushedOn, endedOn, hP]
    exact before_of_begun hlen hE hbegun

end Runs

/-! ## A write and a finish -/

/-- A client pushes a command and waits for its queue to finish, and the worker comes for it. -/
def writeAndWait : List (Label ℝ Unit Unit) :=
  [.connect () 1, .createQueue (), .bindDev () (), .push () .write, .finish (), .take (), .check ()]

/-- The worker's turn after it has picked a command. -/
def turn : List (Label ℝ Unit Unit) :=
  [.beginExec (), .endExec () 1, .account (), .pop (), .test (), .clearSkip ()]

/-- The state in which the worker picks the write. -/
noncomputable def beforeWrite : State ℝ Unit Unit :=
  (computeNode.exec State.init writeAndWait).getD State.init

/-- The state in which it picks the finish command. -/
noncomputable def beforeFinish : State ℝ Unit Unit :=
  (computeNode.exec ((beforeWrite.withNode (beforeWrite.node.setSkip 0 true)).goto ()
    (.picked 0 (Command.new 0 .write))) (turn ++ [.take (), .check ()])).getD State.init

lemma step_beforeWrite : computeNode.step beforeWrite (.pick ()) =
    some ((beforeWrite.withNode (beforeWrite.node.setSkip 0 true)).goto ()
      (.picked 0 (Command.new 0 .write))) := by
  have hlt : (-1 : ℝ) < (0 + 1 * 1) / (√(0 + 1 * 1) * √(0 + ((1 + 1) * 0 * 1 + 1 * 1))) := by
    norm_num
  have hchosen : beforeWrite.node.inOrderSchedule = some 0 :=
    Node.inOrderSchedule_of_single rfl rfl hlt
  have hpc : beforeWrite.worker () = .admitted := rfl
  have hfront : (beforeWrite.node.que 0).queue =
      [Command.new 0 .write, Command.new 1 .finish] := rfl
  exact step_pick hpc rfl hchosen hfront

/-- The write has taken one unit of time. -/
lemma step_beforeFinish : computeNode.step beforeFinish (.pick ()) =
    some ((beforeFinish.withNode (beforeFinish.node.setSkip 0 true)).goto ()
      (.picked 0 (Command.new 1 .finish))) := by
  have hlt : (-1 : ℝ) < (0 + 1 * 1 + 1 * 1) / (√(0 + 1 * 1) *
      √(0 + ((1 + 1) * 0 * 1 + 1 * 1) + ((1 + 1) * (0 + 1) * 1 + 1 * 1))) :=
    neg_one_lt_zero.trans_le (by positivity)
  have hchosen : beforeFinish.node.inOrderSchedule = some 0 :=
    Node.inOrderSchedule_of_single rfl rfl hlt
  have hpc : beforeFinish.worker () = .admitted := rfl
  have hfront : (beforeFinish.node.que 0).queue = [Command.new 1 .finish] := rfl
  exact step_pick hpc rfl hchosen hfront

/-- The client pushes a command, the worker runs both, and the finish passes. -/
def writeAndFinish : List (Label ℝ Unit Unit) :=
  writeAndWait ++ .pick () :: (turn ++ [.take (), .check ()]) ++ .pick () :: turn

theorem serial_execution_run :
    ∃ s s' : State ℝ Unit Unit, computeNode.exec State.init writeAndFinish = some s ∧
      computeNode.step s (.passWait ()) = some s' ∧ endedOn writeAndFinish 0 = [0, 1] ∧
      Serial writeAndFinish s 0 := by
  have hwrite : computeNode.exec State.init writeAndWait = some beforeWrite := rfl
  have hfinish : computeNode.exec beforeWrite (.pick () :: (turn ++ [.take (), .check ()])) =
      some beforeFinish := computeNode.exec_cons_iff.2 ⟨_, step_beforeWrite, rfl⟩
  have hrest : computeNode.exec beforeFinish (.pick () :: turn) = some _ :=
    computeNode.exec_cons_iff.2 ⟨_, step_beforeFinish, rfl⟩
  have hboth := computeNode.exec_append_iff.2 ⟨_, hwrite, hfinish⟩
  have hrun : computeNode.exec State.init writeAndFinish = some _ :=
    computeNode.exec_append_iff.2 ⟨_, hboth, hrest⟩
  have hends : computeNode.trace State.ends State.init writeAndFinish = [(0, 0), (0, 1)] := by
    rw [writeAndFinish, computeNode.trace_append _ _ hboth, computeNode.trace_append _ _ hwrite,
      Machine.trace, step_beforeWrite, Machine.trace, step_beforeFinish]
    rfl
  refine ⟨_, _, hrun, rfl, ?_, serial_execution hrun 0⟩
  rw [endedOn, hends]
  rfl

end ElasticFramework
