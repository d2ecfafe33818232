import ElasticFramework.Construction.Inversion
import ElasticFramework.Properties.Linked

/-!
# Threads and objects agree

`Coherent` is the invariant every safety result about the compute node starts from.  It has four
parts, each about the components it names and proved of every step on its own:

* `Node.Linked`, about the node's lists and addresses;
* `LockOk`: `proc_lock_` is held between steps exactly by the worker in the epilogue;
* `Claims`: a worker that has picked a queue is the one reason for that queue's skip flag, and the
  queue still holds what the worker took from its front;
* `Sessions`: every session's VM and queue are live and its own, and a session past
  `WaitForFinishing` has an empty queue.

The delicate step is `teardown`.  `WaitForFinishing` looks at the list only, and the list is
empty while the last command's worker is still in its epilogue; that the queue is nevertheless
nobody's when it leaves the pool is due to the scheduler lock.
-/

namespace ElasticFramework

variable {K W T : Type*}

/-! ## Definitions -/

/-- What a worker may rely on about the queue it has picked: until `Pop` the command it took is
at the front, and after the branch that returned a token the queue is not empty. -/
def WorkerPc.Fits {D : Type*} : WorkerPc K → CommandQueue K D → Prop
  | .picked _ comm, cq | .executing _ comm, cq | .executed _ comm _, cq =>
    cq.queue.head? = some comm
  | .accounted _, cq | .tested _ true, cq => cq.queue ≠ []
  | _, _ => True

/-- The scheduler lock is held between two steps exactly by the worker in the epilogue. -/
def LockOk (worker : W → WorkerPc K) (procLock : Option W) : Prop :=
  ∀ w, procLock = some w ↔ (worker w).inEpilogue = true

/-- The skip flags are the workers' claims. -/
structure Claims (n : Node K W) (worker : W → WorkerPc K) : Prop where
  claim : ∀ w q, (worker w).queue = some q →
    q ∈ n.queues ∧ (n.que q).skip = true ∧ (worker w).Fits (n.que q)
  unique : ∀ w w' q, (worker w).queue = some q → (worker w').queue = some q → w = w'
  claimed : ∀ q, (n.que q).skip = true → ∃ w, (worker w).queue = some q

/-- Sessions own live, distinct VMs and queues. -/
structure Sessions (n : Node K W) (session : T → SessionPc) : Prop where
  vmMem : ∀ t v, (session t).vm = some v → v ∈ n.VMs
  vmInj : ∀ t t' v, (session t).vm = some v → (session t').vm = some v → t = t'
  queueMem : ∀ t q, (session t).queue = some q → q ∈ n.queues
  queueInj : ∀ t t' q, (session t).queue = some q → (session t').queue = some q → t = t'
  drained : ∀ t v q, session t = .drained v q → (n.que q).queue = []

/-- The invariant of the compute node. -/
structure Coherent (s : State K W T) : Prop where
  linked : s.node.Linked
  lock : LockOk s.worker s.procLock
  claims : Claims s.node s.worker
  sessions : Sessions s.node s.session

/-! ## The lock -/

namespace LockOk

variable {worker : W → WorkerPc K} {procLock : Option W}

lemma not_inEpilogue (h : LockOk worker none) (w : W) : (worker w).inEpilogue = false := by
  have hw := (h w).not.1 (by simp)
  simpa using hw

variable [DecidableEq W]

/-- A move that neither enters nor leaves the epilogue. -/
lemma goto (h : LockOk worker procLock) {w : W} {pc : WorkerPc K}
    (hpc : pc.inEpilogue = (worker w).inEpilogue) :
    LockOk (Function.update worker w pc) procLock := by
  intro w'
  rw [apply_update_eq (f := WorkerPc.inEpilogue) hpc]
  exact h w'

lemma acquire (h : LockOk worker none) {w : W} {pc : WorkerPc K} (hpc : pc.inEpilogue = true) :
    LockOk (Function.update worker w pc) (some w) := by
  intro w'
  by_cases hw : w' = w
  · subst hw
    simpa using hpc
  · have hout := h.not_inEpilogue w'
    simp [hw, hout, Ne.symm hw]

lemma release (h : LockOk worker procLock) {w : W} {pc : WorkerPc K}
    (hin : (worker w).inEpilogue = true) (hpc : pc.inEpilogue = false) :
    LockOk (Function.update worker w pc) none := by
  intro w'
  by_cases hw : w' = w
  · subst hw
    simpa using hpc
  · -- Only one worker held the lock, and it was `w`.
    have hout : (worker w').inEpilogue ≠ true := by
      intro hin'
      have hlock := (h w').2 hin'
      rw [(h w).2 hin] at hlock
      exact hw (Option.some.inj hlock).symm
    simpa [hw] using hout

end LockOk

/-! ## Claims -/

namespace WorkerPc.Fits

variable {D : Type*} {pc : WorkerPc K}

/-- What a worker relies on survives a push. -/
lemma append {cq : CommandQueue K D} (h : pc.Fits cq) (comm : Command K) :
    pc.Fits { cq with queue := cq.queue ++ [comm] } := by
  have hhead : ∀ c, cq.queue.head? = some c → (cq.queue ++ [comm]).head? = some c := by
    intro c hc
    simp [List.head?_append, hc]
  cases pc with
  | picked q c => exact hhead c h
  | executing q c => exact hhead c h
  | executed q c u => exact hhead c h
  | accounted q => simp [Fits]
  | tested q b => cases b <;> simp [Fits]
  | _ => trivial

/-- `Fits` reads the list only. -/
lemma congr {cq cq' : CommandQueue K D} (h : pc.Fits cq) (hq : cq'.queue = cq.queue) :
    pc.Fits cq' := by
  cases pc with
  | picked q c => simpa [Fits, hq] using h
  | executing q c => simpa [Fits, hq] using h
  | executed q c u => simpa [Fits, hq] using h
  | accounted q => simpa [Fits, hq] using h
  | tested q b =>
      cases b
      · trivial
      · simpa [Fits, hq] using h
  | _ => trivial

/-- A worker whose queue is empty is past `Pop`, so it holds the scheduler lock. -/
lemma inEpilogue_of_nil {cq : CommandQueue K D} {q : ℕ} (h : pc.Fits cq)
    (hq : pc.queue = some q) (hnil : cq.queue = []) : pc.inEpilogue = true := by
  cases pc with
  | picked p c => simp [Fits, hnil] at h
  | executing p c => simp [Fits, hnil] at h
  | executed p c u => simp [Fits, hnil] at h
  | accounted p => rfl
  | popped p => rfl
  | tested p b => rfl
  | _ => simp [queue] at hq

end WorkerPc.Fits

namespace Claims

variable {n n' : Node K W} {worker : W → WorkerPc K}

/-- A queue whose flag is down has no worker. -/
lemma unclaimed (h : Claims n worker) {q : ℕ} (hskip : (n.que q).skip = false) (w : W) :
    (worker w).queue ≠ some q := by
  intro hq
  have hs := (h.claim w q hq).2.1
  rw [hskip] at hs
  cases hs

/-- The flag of a queue without a worker is down. -/
lemma unskipped (h : Claims n worker) {q : ℕ} (hfree : ∀ w, (worker w).queue ≠ some q) :
    (n.que q).skip = false := by
  by_contra hskip
  obtain ⟨w, hw⟩ := h.claimed q (by simpa using hskip)
  exact hfree w hw

/-- The addresses the workers hold have been handed out. -/
lemma lt_nextQueue [Arith K] (h : Claims n worker) (hl : n.Linked) {w : W} {q : ℕ}
    (hq : (worker w).queue = some q) : q < n.nextQueue :=
  hl.freshQueues q (h.claim w q hq).1

/-- The node changes, the skip flags do not. -/
lemma withNode (h : Claims n worker)
    (hqueues : ∀ w q, (worker w).queue = some q → q ∈ n'.queues)
    (hskip : ∀ q, (n'.que q).skip = (n.que q).skip)
    (hfits : ∀ w q, (worker w).queue = some q → (worker w).Fits (n.que q) →
      (worker w).Fits (n'.que q)) : Claims n' worker where
  claim := by
    intro w q hq
    obtain ⟨-, hs, hf⟩ := h.claim w q hq
    exact ⟨hqueues w q hq, (hskip q).trans hs, hfits w q hq hf⟩
  unique := h.unique
  claimed := fun q hq => h.claimed q ((hskip q).symm.trans hq)

/-- The node changes and keeps its pool and its queue objects. -/
lemma keep (h : Claims n worker) (hqueues : n'.queues = n.queues) (hque : n'.que = n.que) :
    Claims n' worker := by
  refine h.withNode (fun w q hq => ?_) (fun q => by rw [hque]) fun w q _ hf => ?_
  · rw [hqueues]
    exact (h.claim w q hq).1
  · rw [hque]
    exact hf

/-- One queue object changes and keeps its skip flag. -/
lemma setQueue [Arith K] (h : Claims n worker) {q : ℕ} {cq : CommandQueue K W}
    (hqueues : n'.queues = n.queues) (hque : n'.que = Function.update n.que q cq)
    (hskip : cq.skip = (n.que q).skip)
    (hfits : ∀ w, (worker w).queue = some q → (worker w).Fits (n.que q) →
      (worker w).Fits cq) : Claims n' worker := by
  refine h.withNode (fun w p hp => hqueues ▸ (h.claim w p hp).1) (fun p => ?_) ?_
  · rw [hque]
    exact apply_update_eq (f := CommandQueue.skip) hskip p
  · intro w p hp hf
    rw [hque]
    by_cases hpq : p = q
    · subst hpq
      simpa using hfits w hp hf
    · simpa [hpq] using hf

variable [DecidableEq W]

/-- A worker moves and keeps its queue. -/
lemma goto (h : Claims n worker) {w : W} {pc : WorkerPc K} (hpc : pc.queue = (worker w).queue)
    (hfits : ∀ q, pc.queue = some q → (worker w).Fits (n.que q) → pc.Fits (n.que q)) :
    Claims n (Function.update worker w pc) where
  claim := by
    intro w' q hq
    rw [apply_update_eq (f := WorkerPc.queue) hpc] at hq
    obtain ⟨hmem, hs, hf⟩ := h.claim w' q hq
    refine ⟨hmem, hs, ?_⟩
    by_cases hw : w' = w
    · subst hw
      simpa using hfits q (hpc.trans hq) hf
    · simpa [hw] using hf
  unique := by
    intro w₁ w₂ q h₁ h₂
    rw [apply_update_eq (f := WorkerPc.queue) hpc] at h₁ h₂
    exact h.unique w₁ w₂ q h₁ h₂
  claimed := by
    intro q hq
    obtain ⟨w', hw'⟩ := h.claimed q hq
    exact ⟨w', (apply_update_eq (f := WorkerPc.queue) hpc w').trans hw'⟩

/-- A queue nobody has is picked. -/
lemma pick (h : Claims n worker) {w : W} {q : ℕ} {comm : Command K} {rest : List (Command K)}
    (hw : (worker w).queue = none) (hmem : q ∈ n.queues) (hskip : (n.que q).skip = false)
    (hfront : (n.que q).queue = comm :: rest) :
    Claims (n.setSkip q true) (Function.update worker w (.picked q comm)) where
  claim := by
    intro w' p hp
    by_cases hw' : w' = w
    · subst hw'
      simp only [Function.update_self, WorkerPc.queue, Option.some.injEq] at hp
      subst hp
      exact ⟨hmem, by simp [Node.setSkip], by simp [Node.setSkip, WorkerPc.Fits, hfront]⟩
    · rw [Function.update_of_ne hw'] at hp ⊢
      have hpq : p ≠ q := by
        rintro rfl
        exact h.unclaimed hskip w' hp
      simpa [Node.setSkip, hpq] using h.claim w' p hp
  unique := by
    intro w₁ w₂ p h₁ h₂
    -- `q` was unclaimed, so it has no second claimant.
    have hfree := h.unclaimed hskip
    by_cases hw₁ : w₁ = w <;> by_cases hw₂ : w₂ = w
    · rw [hw₁, hw₂]
    · subst hw₁
      simp only [Function.update_self, WorkerPc.queue, Option.some.injEq] at h₁
      rw [Function.update_of_ne hw₂, ← h₁] at h₂
      exact absurd h₂ (hfree w₂)
    · subst hw₂
      simp only [Function.update_self, WorkerPc.queue, Option.some.injEq] at h₂
      rw [Function.update_of_ne hw₁, ← h₂] at h₁
      exact absurd h₁ (hfree w₁)
    · rw [Function.update_of_ne hw₁] at h₁
      rw [Function.update_of_ne hw₂] at h₂
      exact h.unique w₁ w₂ p h₁ h₂
  claimed := by
    intro p hp
    by_cases hpq : p = q
    · exact ⟨w, by simp [hpq, WorkerPc.queue]⟩
    · obtain ⟨w', hw'⟩ := h.claimed p (by simpa [Node.setSkip, hpq] using hp)
      have hne : w' ≠ w := by
        rintro rfl
        rw [hw] at hw'
        cases hw'
      exact ⟨w', by rwa [Function.update_of_ne hne]⟩

/-- A worker gives its queue back. -/
lemma clearSkip (h : Claims n worker) {w : W} {q : ℕ} (hw : (worker w).queue = some q) :
    Claims (n.setSkip q false) (Function.update worker w .waiting) where
  claim := by
    intro w' p hp
    have hw' : w' ≠ w := by
      rintro rfl
      simp [WorkerPc.queue] at hp
    rw [Function.update_of_ne hw'] at hp ⊢
    have hpq : p ≠ q := by
      rintro rfl
      exact hw' (h.unique w' w p hp hw)
    simpa [Node.setSkip, hpq] using h.claim w' p hp
  unique := by
    intro w₁ w₂ p h₁ h₂
    have hw₁ : w₁ ≠ w := by
      rintro rfl
      simp [WorkerPc.queue] at h₁
    have hw₂ : w₂ ≠ w := by
      rintro rfl
      simp [WorkerPc.queue] at h₂
    rw [Function.update_of_ne hw₁] at h₁
    rw [Function.update_of_ne hw₂] at h₂
    exact h.unique w₁ w₂ p h₁ h₂
  claimed := by
    intro p hp
    have hpq : p ≠ q := by
      rintro rfl
      simp [Node.setSkip] at hp
    obtain ⟨w', hw'⟩ := h.claimed p (by simpa [Node.setSkip, hpq] using hp)
    have hne : w' ≠ w := by
      rintro rfl
      rw [hw] at hw'
      exact hpq (Option.some.inj hw').symm
    exact ⟨w', by rwa [Function.update_of_ne hne]⟩

end Claims

/-! ## Sessions -/

namespace Sessions

variable {n n' : Node K W} {session : T → SessionPc}

/-- The node changes and keeps the VMs and queues of the sessions. -/
lemma withNode (h : Sessions n session) (hVMs : ∀ v ∈ n.VMs, v ∈ n'.VMs)
    (hqueues : ∀ q ∈ n.queues, q ∈ n'.queues)
    (hdrained : ∀ t v q, session t = .drained v q → (n'.que q).queue = []) :
    Sessions n' session where
  vmMem := fun t v hv => hVMs v (h.vmMem t v hv)
  vmInj := h.vmInj
  queueMem := fun t q hq => hqueues q (h.queueMem t q hq)
  queueInj := h.queueInj
  drained := hdrained

/-- One queue object changes, and an empty list stays empty. -/
lemma setQueue (h : Sessions n session) {q : ℕ} {cq : CommandQueue K W}
    (hqueue : (n.que q).queue = [] → cq.queue = []) : Sessions (n.setQueue q cq) session := by
  refine h.withNode (fun _ hv => hv) (fun _ hq => hq) fun t v p hd => ?_
  have hold := h.drained t v p hd
  by_cases hpq : p = q
  · subst hpq
    simpa using hqueue hold
  · simpa [hpq] using hold

/-- The sessions past `WaitForFinishing` are not the one whose queue is pushed on. -/
lemma push (h : Sessions n session) {t : T} {v q : ℕ} (hpc : session t = .serving v q)
    (comm : Command K) : Sessions (n.push q comm) session := by
  refine h.withNode (by simp) (by simp) fun t' v' q' hd => ?_
  have hne : q' ≠ q := by
    intro hqq
    have htt : t' = t := h.queueInj t' t q (by simp [hd, SessionPc.queue, hqq])
      (by simp [hpc, SessionPc.queue])
    rw [htt, hpc] at hd
    cases hd
  have hold := h.drained t' v' q' hd
  simpa [hne] using hold

variable [DecidableEq T]

/-- A session moves and keeps its VM and its queue. -/
lemma enter (h : Sessions n session) {t : T} {pc : SessionPc} (hvm : pc.vm = (session t).vm)
    (hqueue : pc.queue = (session t).queue)
    (hdrained : ∀ v q, pc = .drained v q → (n.que q).queue = []) :
    Sessions n (Function.update session t pc) where
  vmMem := by
    intro t' v hv
    rw [apply_update_eq hvm] at hv
    exact h.vmMem t' v hv
  vmInj := by
    intro t₁ t₂ v h₁ h₂
    rw [apply_update_eq hvm] at h₁ h₂
    exact h.vmInj t₁ t₂ v h₁ h₂
  queueMem := by
    intro t' q hq
    rw [apply_update_eq hqueue] at hq
    exact h.queueMem t' q hq
  queueInj := by
    intro t₁ t₂ q h₁ h₂
    rw [apply_update_eq hqueue] at h₁ h₂
    exact h.queueInj t₁ t₂ q h₁ h₂
  drained := by
    intro t' v q hd
    by_cases ht : t' = t
    · subst ht
      exact hdrained v q (by simpa using hd)
    · exact h.drained t' v q (by simpa [ht] using hd)

variable [Arith K]

lemma connect (h : Sessions n session) (hl : n.Linked) {t : T} (hpc : session t = .absent)
    (weight : K) :
    Sessions (n.createVM weight) (Function.update session t (.connected n.nextVM)) := by
  have hfresh : ∀ t', (session t').vm ≠ some n.nextVM := by
    intro t' ht'
    have hlt := hl.freshVMs _ (h.vmMem t' _ ht')
    omega
  have hqueue : (SessionPc.connected n.nextVM).queue = (session t).queue := by
    rw [hpc]
    rfl
  have hself : ∀ t' v, t' ≠ t → (session t').vm = some v → v ≠ n.nextVM := by
    rintro t' v - hv rfl
    exact hfresh t' hv
  refine ⟨?_, ?_, ?_, ?_, ?_⟩
  · intro t' v hv
    by_cases ht : t' = t
    · subst ht
      have hvm : n.nextVM = v := by simpa [SessionPc.vm] using hv
      simp [Node.createVM, hvm]
    · have hmem := h.vmMem t' v (by simpa [ht] using hv)
      exact List.mem_append_left _ hmem
  · intro t₁ t₂ v h₁ h₂
    by_cases ht₁ : t₁ = t <;> by_cases ht₂ : t₂ = t
    · rw [ht₁, ht₂]
    · have hvm : n.nextVM = v := by simpa [ht₁, SessionPc.vm] using h₁
      exact absurd hvm.symm (hself t₂ v ht₂ (by simpa [ht₂] using h₂))
    · have hvm : n.nextVM = v := by simpa [ht₂, SessionPc.vm] using h₂
      exact absurd hvm.symm (hself t₁ v ht₁ (by simpa [ht₁] using h₁))
    · exact h.vmInj t₁ t₂ v (by simpa [ht₁] using h₁) (by simpa [ht₂] using h₂)
  · intro t' q hq
    rw [apply_update_eq hqueue] at hq
    exact h.queueMem t' q hq
  · intro t₁ t₂ q h₁ h₂
    rw [apply_update_eq hqueue] at h₁ h₂
    exact h.queueInj t₁ t₂ q h₁ h₂
  · intro t' v q hd
    by_cases ht : t' = t
    · simp [ht] at hd
    · exact h.drained t' v q (by simpa [ht] using hd)

omit [Arith K] in
lemma createQueue (h : Sessions n session) (hl : n.Linked) {t : T} {v : ℕ}
    (hpc : session t = .connected v) :
    Sessions (n.createQueue v) (Function.update session t (.created v n.nextQueue)) := by
  have hfresh : ∀ t', (session t').queue ≠ some n.nextQueue := by
    intro t' ht'
    have hlt := hl.freshQueues _ (h.queueMem t' _ ht')
    omega
  have hvm : (SessionPc.created v n.nextQueue).vm = (session t).vm := by
    rw [hpc]
    rfl
  have hself : ∀ t' q, (session t').queue = some q → q ≠ n.nextQueue := by
    rintro t' q hq rfl
    exact hfresh t' hq
  refine ⟨?_, ?_, ?_, ?_, ?_⟩
  · intro t' u hu
    rw [apply_update_eq hvm] at hu
    exact h.vmMem t' u hu
  · intro t₁ t₂ u h₁ h₂
    rw [apply_update_eq hvm] at h₁ h₂
    exact h.vmInj t₁ t₂ u h₁ h₂
  · intro t' q hq
    by_cases ht : t' = t
    · have hqueue : n.nextQueue = q := by simpa [ht, SessionPc.queue] using hq
      simp [Node.createQueue, hqueue]
    · have hmem := h.queueMem t' q (by simpa [ht] using hq)
      exact List.mem_append_left _ hmem
  · intro t₁ t₂ q h₁ h₂
    by_cases ht₁ : t₁ = t <;> by_cases ht₂ : t₂ = t
    · rw [ht₁, ht₂]
    · have hqueue : n.nextQueue = q := by simpa [ht₁, SessionPc.queue] using h₁
      exact absurd hqueue.symm (hself t₂ q (by simpa [ht₂] using h₂))
    · have hqueue : n.nextQueue = q := by simpa [ht₂, SessionPc.queue] using h₂
      exact absurd hqueue.symm (hself t₁ q (by simpa [ht₁] using h₁))
    · exact h.queueInj t₁ t₂ q (by simpa [ht₁] using h₁) (by simpa [ht₂] using h₂)
  · intro t' u q hd
    by_cases ht : t' = t
    · simp [ht] at hd
    · have hd' : session t' = .drained u q := by simpa [ht] using hd
      have hne := hself t' q (by simp [hd', SessionPc.queue])
      have hold := h.drained t' u q hd'
      simpa [Node.createQueue, hne] using hold

/-- The session that leaves takes its own VM and queue and nobody else's. -/
lemma teardown (h : Sessions n session) {t : T} {v q : ℕ} (hpc : session t = .drained v q) :
    Sessions ((n.destroyQueue q).destroyVM v).2 (Function.update session t .closed) := by
  have hvm : (session t).vm = some v := by simp [hpc, SessionPc.vm]
  have hqueue : (session t).queue = some q := by simp [hpc, SessionPc.queue]
  have hother : ∀ t', (Function.update session t SessionPc.closed t').vm ≠ none ∨
      (Function.update session t SessionPc.closed t').queue ≠ none → t' ≠ t := by
    rintro t' hsome rfl
    simp [SessionPc.vm, SessionPc.queue] at hsome
  refine ⟨?_, ?_, ?_, ?_, ?_⟩
  · intro t' u hu
    have ht := hother t' (Or.inl (by simp [hu]))
    rw [Function.update_of_ne ht] at hu
    have hne : u ≠ v := by
      rintro rfl
      exact ht (h.vmInj t' t u hu hvm)
    exact Node.mem_destroyVM_of_ne (h.vmMem t' u hu) hne
  · intro t₁ t₂ u h₁ h₂
    have ht₁ := hother t₁ (Or.inl (by simp [h₁]))
    have ht₂ := hother t₂ (Or.inl (by simp [h₂]))
    exact h.vmInj t₁ t₂ u (by simpa [ht₁] using h₁) (by simpa [ht₂] using h₂)
  · intro t' p hp
    have ht := hother t' (Or.inr (by simp [hp]))
    rw [Function.update_of_ne ht] at hp
    have hne : p ≠ q := by
      rintro rfl
      exact ht (h.queueInj t' t p hp hqueue)
    simpa [Node.destroyQueue] using (List.mem_erase_of_ne hne).2 (h.queueMem t' p hp)
  · intro t₁ t₂ p h₁ h₂
    have ht₁ := hother t₁ (Or.inr (by simp [h₁]))
    have ht₂ := hother t₂ (Or.inr (by simp [h₂]))
    exact h.queueInj t₁ t₂ p (by simpa [ht₁] using h₁) (by simpa [ht₂] using h₂)
  · intro t' u p hd
    have ht := hother t' (Or.inr (by simp [hd, SessionPc.queue]))
    have hold := h.drained t' u p (by simpa [ht] using hd)
    simpa [Node.destroyQueue] using hold

end Sessions

/-! ## One step -/

section Step

variable [Arith K] [DecidableEq W] [DecidableEq T] {s s' : State K W T} {l : Label K W T}

lemma linked_step (h : Coherent s) (hs : Step s l s') : s'.node.Linked := by
  have hl := h.linked
  cases hs with
  | connect hpc hlock => exact hl.createVM _
  | @createQueue t v hpc hlock =>
      have hv := h.sessions.vmMem t v (by simp [hpc, SessionPc.vm])
      exact hl.createQueue hv
  | bindDev hpc => exact hl.setBindingDev _ _
  | push hpc hkind => exact hl.push _ _
  | finish hpc => exact hl.push _ _
  | @teardown t v q hpc hlock =>
      have hq := h.sessions.queueMem t q (by simp [hpc, SessionPc.queue])
      exact (hl.destroyQueue hq).destroyVM v
  | take hpc hsem => exact hl.congr rfl rfl rfl rfl (fun _ => rfl) fun _ => rfl
  | giveBack hpc => exact hl.increase
  | pick hpc hlock hq hfront => exact hl.setSkip _ _
  | beginExec hpc => simpa [State.goto] using hl
  | account hpc hlock => exact hl.account _ _
  | pop hpc => exact hl.pop _
  | testNonempty hpc hempty => exact hl.increase
  | clearSkip hpc => exact hl.setSkip _ _
  | _ => exact hl

lemma lock_step (h : Coherent s) (hs : Step s l s') : LockOk s'.worker s'.procLock := by
  have hk := h.lock
  cases hs with
  | take hpc hsem => exact hk.goto (by simp [hpc, WorkerPc.inEpilogue])
  | check hpc =>
      refine hk.goto ?_
      split <;> simp [hpc, WorkerPc.inEpilogue]
  | giveBack hpc => exact hk.goto (by simp [hpc, WorkerPc.inEpilogue])
  | pick hpc hlock hq hfront => exact hk.goto (by simp [hpc, WorkerPc.inEpilogue])
  | @beginExec w q comm hpc =>
      have hgoto : LockOk (Function.update s.worker w (.executing q comm)) s.procLock :=
        hk.goto (by simp [hpc, WorkerPc.inEpilogue])
      simpa [State.goto] using hgoto
  | endExec hpc => exact hk.goto (by simp [hpc, WorkerPc.inEpilogue])
  | account hpc hlock =>
      rw [hlock] at hk
      exact hk.acquire rfl
  | pop hpc => exact hk.goto (by simp [hpc, WorkerPc.inEpilogue])
  | testEmpty hpc hempty => exact hk.goto (by simp [hpc, WorkerPc.inEpilogue])
  | testNonempty hpc hempty => exact hk.goto (by simp [hpc, WorkerPc.inEpilogue])
  | clearSkip hpc => exact hk.release (by simp [hpc, WorkerPc.inEpilogue]) rfl
  | _ => exact hk

omit [DecidableEq W] [DecidableEq T] in
lemma claims_push (h : Coherent s) (q : ℕ) (comm : Command K) :
    Claims (s.node.push q comm) s.worker :=
  h.claims.setQueue (by simp) (Node.push_que _ _ _) rfl fun _ _ hf => hf.append comm

omit [DecidableEq W] [DecidableEq T] in
/-- The new address carries no claim, so its flag was already down. -/
lemma claims_createQueue (h : Coherent s) (v : ℕ) :
    Claims (s.node.createQueue v) s.worker := by
  have hc := h.claims
  have hfree := hc.unskipped fun w hw => (hc.lt_nextQueue h.linked hw).false
  refine hc.withNode (fun w q hq => ?_) (fun q => ?_) fun w q hq hf => ?_
  · exact List.mem_append_left _ (hc.claim w q hq).1
  · exact apply_update_eq (f := CommandQueue.skip) hfree.symm q
  · have hlt := hc.lt_nextQueue h.linked hq
    simpa [Node.createQueue, hlt.ne] using hf

omit [DecidableEq W] [DecidableEq T] in
/-- The queue of a session that goes is empty, and nobody is at the end of a command. -/
lemma claims_teardown (h : Coherent s) {t : T} {v q : ℕ} (hpc : s.session t = .drained v q)
    (hlock : s.procLock = none) :
    Claims ((s.node.destroyQueue q).destroyVM v).2 s.worker := by
  refine h.claims.withNode (fun w p hp => ?_) (fun p => ?_) fun w p hp hf => ?_
  · obtain ⟨hmem, -, hf⟩ := h.claims.claim w p hp
    have hne : p ≠ q := by
      rintro rfl
      have hin := hf.inEpilogue_of_nil hp (h.sessions.drained t v p hpc)
      have hk := h.lock
      rw [hlock] at hk
      rw [hk.not_inEpilogue w] at hin
      cases hin
    simpa [Node.destroyQueue] using (List.mem_erase_of_ne hne).2 hmem
  · simp [Node.destroyQueue]
  · simpa [Node.destroyQueue] using hf

lemma claims_step (h : Coherent s) (hs : Step s l s') : Claims s'.node s'.worker := by
  have hc := h.claims
  cases hs with
  | connect hpc hlock =>
      exact hc.keep rfl rfl
  | createQueue hpc hlock => exact claims_createQueue h _
  | bindDev hpc => exact hc.setQueue rfl rfl rfl fun _ _ hf => hf.congr rfl
  | push hpc hkind => exact claims_push h _ _
  | finish hpc => exact claims_push h _ _
  | teardown hpc hlock => exact claims_teardown h hpc hlock
  | @take w hpc hsem =>
      have hgoto : Claims s.node (Function.update s.worker w (.holding)) :=
        hc.goto (by simp [hpc, WorkerPc.queue])
        fun _ _ _ => trivial
      exact hgoto.keep rfl rfl
  | check hpc =>
      refine hc.goto ?_ fun q hq => ?_
      · split <;> simp [hpc, WorkerPc.queue]
      · split at hq <;> cases hq
  | @giveBack w hpc =>
      have hgoto : Claims s.node (Function.update s.worker w (.waiting)) :=
        hc.goto (by simp [hpc, WorkerPc.queue])
        fun _ _ _ => trivial
      exact hgoto.keep rfl rfl
  | pick hpc hlock hq hfront =>
      obtain ⟨hmem, hready⟩ := Node.inOrderSchedule_ready hq
      have hskip := (CommandQueue.ready_iff.1 hready).1
      exact hc.pick (by simp [hpc, WorkerPc.queue]) hmem hskip hfront
  | @beginExec w q comm hpc =>
      have hgoto : Claims s.node (Function.update s.worker w (.executing q comm)) :=
        hc.goto (by simp [hpc, WorkerPc.queue])
        fun p _ hf => by
          rw [hpc] at hf
          exact hf
      simpa [State.goto] using hgoto
  | endExec hpc =>
      refine hc.goto (by simp [hpc, WorkerPc.queue]) fun q _ hf => ?_
      rw [hpc] at hf
      exact hf
  | @account w q comm usedTime hpc hlock =>
      have hgoto : Claims s.node (Function.update s.worker w (.accounted q)) :=
        hc.goto (by simp [hpc, WorkerPc.queue])
        fun p _ hf => by
          rw [hpc] at hf
          intro hnil
          simp [WorkerPc.Fits, hnil] at hf
      exact hgoto.keep rfl rfl
  | @pop w q hpc =>
      have hgoto : Claims s.node (Function.update s.worker w (.popped q)) :=
        hc.goto (by simp [hpc, WorkerPc.queue]) fun _ _ _ => trivial
      refine hgoto.setQueue rfl rfl rfl fun w' hw' _ => ?_
      -- The only worker with this queue is the one that pops.
      have hself : w' = w := hgoto.unique w' w q hw' (by simp [WorkerPc.queue])
      subst hself
      simp [WorkerPc.Fits]
  | testEmpty hpc hempty =>
      exact hc.goto (by simp [hpc, WorkerPc.queue]) fun _ _ _ => trivial
  | @testNonempty w q hpc hempty =>
      have hgoto : Claims s.node (Function.update s.worker w (.tested q true)) :=
        hc.goto (by simp [hpc, WorkerPc.queue])
        fun p hp _ => by
          cases hp
          exact hempty
      exact hgoto.keep rfl rfl
  | clearSkip hpc => exact hc.clearSkip (by simp [hpc, WorkerPc.queue])
  | _ => exact hc

lemma sessions_step (h : Coherent s) (hs : Step s l s') : Sessions s'.node s'.session := by
  have hn := h.sessions
  cases hs with
  | connect hpc hlock => exact hn.connect h.linked hpc _
  | createQueue hpc hlock => exact hn.createQueue h.linked hpc
  | @bindDev t dev v q hpc =>
      have hnode : Sessions (s.node.setBindingDev q dev) s.session := hn.setQueue id
      exact hnode.enter (by simp [hpc, SessionPc.vm]) (by simp [hpc, SessionPc.queue])
        fun _ _ hd => by cases hd
  | push hpc hkind => exact hn.push hpc _
  | finish hpc =>
      exact (hn.push hpc _).enter (by simp [hpc, SessionPc.vm])
        (by simp [hpc, SessionPc.queue]) fun _ _ hd => by cases hd
  | passWait hpc hsem =>
      exact hn.enter (by simp [hpc, SessionPc.vm]) (by simp [hpc, SessionPc.queue])
        fun _ _ hd => by cases hd
  | seeEmpty hpc hempty =>
      refine hn.enter (by simp [hpc, SessionPc.vm]) (by simp [hpc, SessionPc.queue]) ?_
      intro v q hd
      cases hd
      exact hempty
  | teardown hpc hlock => exact hn.teardown hpc
  | beginExec hpc => simpa [State.goto] using hn
  | pick hpc hlock hq hfront => exact hn.setQueue id
  | pop hpc =>
      refine hn.setQueue fun hnil => ?_
      simp [hnil]
  | clearSkip hpc => exact hn.setQueue id
  | _ => exact hn.withNode (fun _ hv => hv) (fun _ hq => hq) hn.drained

/-- Every step keeps the threads and the objects in agreement. -/
theorem Coherent.step (h : Coherent s) (hs : Step s l s') : Coherent s' where
  linked := linked_step h hs
  lock := lock_step h hs
  claims := claims_step h hs
  sessions := sessions_step h hs

omit [DecidableEq W] [DecidableEq T] in
lemma Coherent.init : Coherent (State.init : State K W T) where
  linked := Node.Linked.init
  lock := by simp [LockOk, State.init, WorkerPc.inEpilogue]
  claims :=
    { claim := by simp [State.init, WorkerPc.queue]
      unique := by simp [State.init, WorkerPc.queue]
      claimed := by simp [State.init, Node.init, CommandQueue.new] }
  sessions :=
    { vmMem := by simp [State.init, SessionPc.vm]
      vmInj := by simp [State.init, SessionPc.vm]
      queueMem := by simp [State.init, SessionPc.queue]
      queueInj := by simp [State.init, SessionPc.queue]
      drained := by simp [State.init] }

/-- Every reachable state is coherent. -/
theorem coherent_of_exec {ls : List (Label K W T)}
    (h : (computeNode (K := K) (W := W) (T := T)).exec State.init ls = some s) : Coherent s :=
  computeNode.invariant Coherent.init (fun _ _ _ hc hl => hc.step (step_inv hl)) h

end Step

end ElasticFramework
