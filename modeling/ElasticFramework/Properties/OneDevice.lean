import ElasticFramework.Properties.Binding
import ElasticFramework.Properties.Coherence

/-!
# One device does it all

`Run` binds the queue of its session to `queues[switcher]`, and `switcher` is a `static int` that
stays at zero.  So every session is bound to the same device, and although each device has its
worker, those of the others never get past `check`: all commands of all sessions are executed by
one worker, one at a time (`one_device`).

What makes this an invariant of runs is that a queue is bound before anything is pushed on it
(`Devoted`): `check` lets a worker take a queue that is bound to no device.
-/

namespace ElasticFramework

variable {K W T : Type*}

/-- Every queue in use is bound to device `d`, and the other devices' workers have nothing. -/
structure Devoted (d : W) (s : State K W T) : Prop where
  /-- A queue that is not bound has nothing on it. -/
  bound : ∀ q, (s.node.que q).bindingDev = some d ∨ (s.node.que q).queue = []
  sessions : ∀ t q, (s.session t).queue = some q →
    (s.node.que q).bindingDev = some d ∨ ∃ v, s.session t = .created v q
  idle : ∀ w, w ≠ d → s.worker w ≠ .admitted ∧ (s.worker w).queue = none

namespace Devoted

variable {d : W} {s s' : State K W T}

/-- Bindings and session queues stay, and no queue gets a command that is not bound. -/
lemma keep (h : Devoted d s) (hworker : s'.worker = s.worker)
    (hbinding : ∀ q, (s'.node.que q).bindingDev = (s.node.que q).bindingDev)
    (hqueue : ∀ q, (s.node.que q).bindingDev ≠ some d → (s.node.que q).queue = [] →
      (s'.node.que q).queue = [])
    (hsession : ∀ t q, (s'.session t).queue = some q →
      (s.node.que q).bindingDev = some d ∨ ∃ v, s'.session t = .created v q) :
    Devoted d s' where
  bound q := by
    rw [hbinding]
    by_cases hq : (s.node.que q).bindingDev = some d
    · exact .inl hq
    · exact .inr (hqueue q hq ((h.bound q).resolve_left hq))
  sessions t q ht := by
    rw [hbinding]
    exact hsession t q ht
  idle := by
    rw [hworker]
    exact h.idle

/-- A worker moves. -/
lemma goto [DecidableEq W] (h : Devoted d s) {w : W} {pc : WorkerPc K}
    (hworker : s'.worker = Function.update s.worker w pc) (hsession : s'.session = s.session)
    (hbinding : ∀ q, (s'.node.que q).bindingDev = (s.node.que q).bindingDev)
    (hqueue : ∀ q, (s.node.que q).queue = [] → (s'.node.que q).queue = [])
    (hpc : w ≠ d → pc ≠ .admitted ∧ pc.queue = none) : Devoted d s' where
  bound q := by
    rw [hbinding]
    exact (h.bound q).imp_right (hqueue q)
  sessions t q ht := by
    rw [hsession] at ht ⊢
    rw [hbinding]
    exact h.sessions t q ht
  idle w' hw' := by
    rw [hworker]
    by_cases hw : w' = w
    · subst hw
      rw [Function.update_self]
      exact hpc hw'
    · rw [Function.update_of_ne hw]
      exact h.idle w' hw'

/-- A worker that has more than its token is the device's. -/
lemma eq_of_busy (h : Devoted d s) {w : W} {pc : WorkerPc K} (hpc : s.worker w = pc)
    (hbusy : pc = .admitted ∨ pc.queue ≠ none) : w = d := by
  by_contra hw
  obtain ⟨hadmitted, hqueue⟩ := h.idle w hw
  rw [hpc] at hadmitted hqueue
  rcases hbusy with hbusy | hbusy
  · exact hadmitted hbusy
  · exact hbusy hqueue

lemma eq_of_queue (h : Devoted d s) {w : W} {pc : WorkerPc K} {q : ℕ} (hpc : s.worker w = pc)
    (hq : pc.queue = some q) : w = d :=
  h.eq_of_busy hpc (.inr (by rw [hq]; exact Option.some_ne_none q))

/-- `check` refuses the worker of another device. -/
lemma check_eq_false [DecidableEq W] (h : Devoted d s) {w : W} (hw : w ≠ d) :
    s.node.check w = false := by
  refine Bool.eq_false_iff.2 fun hcheck => ?_
  obtain ⟨q, -, hready, hmay⟩ := Node.check_iff.1 hcheck
  have hbound := (h.bound q).resolve_right (CommandQueue.ready_iff.1 hready).2
  rcases hmay with hmay | hmay
  · rw [hbound] at hmay
    cases hmay
  · rw [hbound, Option.some.injEq] at hmay
    exact hw hmay.symm

/-- A session enters a state in which its queue, if it has one, is bound or new. -/
lemma sessions_enter [DecidableEq T] (h : Devoted d s) {t : T} {pc : SessionPc}
    (hpc : ∀ q, pc.queue = some q → (s.node.que q).bindingDev = some d) :
    ∀ t' q, (Function.update s.session t pc t').queue = some q →
      (s.node.que q).bindingDev = some d ∨
        ∃ v, Function.update s.session t pc t' = .created v q := by
  intro t' q ht'
  by_cases htt : t' = t
  · subst htt
    rw [Function.update_self] at ht'
    exact .inl (hpc q ht')
  · rw [Function.update_of_ne htt] at ht' ⊢
    exact h.sessions t' q ht'

lemma sessions_leave [DecidableEq T] (h : Devoted d s) {t : T} {pc : SessionPc}
    (hpc : pc.queue = none) :
    ∀ t' q, (Function.update s.session t pc t').queue = some q →
      (s.node.que q).bindingDev = some d ∨
        ∃ v, Function.update s.session t pc t' = .created v q :=
  h.sessions_enter fun q hq => by rw [hpc] at hq; cases hq

/-- The queue of a session that is past `set_binding_dev`. -/
lemma bound_of_session (h : Devoted d s) {t : T} {q : ℕ} (ht : (s.session t).queue = some q)
    (hpc : ∀ v, s.session t ≠ .created v q) : (s.node.que q).bindingDev = some d := by
  rcases h.sessions t q ht with hbound | ⟨v, hcreated⟩
  · exact hbound
  · exact absurd hcreated (hpc v)

/-- A push, on a queue that is bound. -/
lemma push [Arith K] (h : Devoted d s) {q : ℕ} (hbound : (s.node.que q).bindingDev = some d)
    (comm : Command K) (hworker : s'.worker = s.worker) (hnode : s'.node = s.node.push q comm)
    (hsession : ∀ t q, (s'.session t).queue = some q →
      (s.node.que q).bindingDev = some d ∨ ∃ v, s'.session t = .created v q) : Devoted d s' := by
  refine h.keep hworker (fun p => ?_) (fun p hp hempty => ?_) hsession
  · rw [hnode, Node.push_que]
    refine apply_update_eq (f := CommandQueue.bindingDev) ?_ p
    rfl
  · have hne : p ≠ q := by
      rintro rfl
      exact hp hbound
    rw [hnode, Node.push_que, Function.update_of_ne hne, hempty]

/-- A new queue is not bound, and nobody else's. -/
lemma createQueue [DecidableEq T] (h : Devoted d s) (hc : Coherent s) {t : T} {v : ℕ} :
    Devoted d ((s.withNode (s.node.createQueue v)).enter t (.created v s.node.nextQueue)) := by
  have hque : (s.node.createQueue v).que =
      Function.update s.node.que s.node.nextQueue (CommandQueue.new v) := rfl
  refine ⟨fun q => ?_, fun t' q ht' => ?_, h.idle⟩
  · by_cases hq : q = s.node.nextQueue
    · subst hq
      refine .inr ?_
      change ((s.node.createQueue v).que s.node.nextQueue).queue = []
      rw [hque, Function.update_self]
      rfl
    · change ((s.node.createQueue v).que q).bindingDev = some d ∨
        ((s.node.createQueue v).que q).queue = []
      rw [hque, Function.update_of_ne hq]
      exact h.bound q
  · change (Function.update s.session t _ t').queue = some q at ht'
    change ((s.node.createQueue v).que q).bindingDev = some d ∨
      ∃ v', Function.update s.session t (.created v s.node.nextQueue) t' = .created v' q
    by_cases htt : t' = t
    · subst htt
      rw [Function.update_self] at ht' ⊢
      cases ht'
      exact .inr ⟨v, rfl⟩
    · rw [Function.update_of_ne htt] at ht' ⊢
      have hlt := hc.linked.freshQueues q (hc.sessions.queueMem t' q ht')
      rw [hque, Function.update_of_ne hlt.ne]
      exact h.sessions t' q ht'

/-- A queue is bound to the device. -/
lemma bindDev [DecidableEq T] (h : Devoted d s) {t : T} {v q : ℕ} :
    Devoted d ((s.withNode (s.node.setBindingDev q d)).enter t (.serving v q)) := by
  have hbinding : ∀ p, ((s.node.setBindingDev q d).que p).bindingDev =
      if p = q then some d else (s.node.que p).bindingDev := by
    intro p
    by_cases hp : p = q
    · subst hp
      simp [Node.setBindingDev, Node.setQueue]
    · simp [Node.setBindingDev, Node.setQueue, hp]
  refine ⟨fun p => ?_, fun t' p ht' => ?_, h.idle⟩
  · change ((s.node.setBindingDev q d).que p).bindingDev = some d ∨
      ((s.node.setBindingDev q d).que p).queue = []
    rw [hbinding, Node.setBindingDev_queue]
    split
    · exact .inl rfl
    · exact h.bound p
  · change (Function.update s.session t (.serving v q) t').queue = some p at ht'
    change ((s.node.setBindingDev q d).que p).bindingDev = some d ∨
      ∃ v', Function.update s.session t (.serving v q) t' = .created v' p
    rw [hbinding]
    by_cases htt : t' = t
    · subst htt
      rw [Function.update_self] at ht'
      cases ht'
      exact .inl (if_pos rfl)
    · rw [Function.update_of_ne htt] at ht' ⊢
      split
      · exact .inl rfl
      · exact h.sessions t' p ht'

variable [Arith K] [DecidableEq W] [DecidableEq T] {l : Label K W T}

lemma step (h : Devoted d s) (hc : Coherent s) (hs : Step s l s')
    (hl : ∀ t dev, l = .bindDev t dev → dev = d) : Devoted d s' := by
  cases hs with
  | connect hpc hlock =>
      exact h.keep rfl (fun _ => rfl) (fun _ _ hempty => hempty) (h.sessions_leave rfl)
  | createQueue hpc hlock => exact h.createQueue hc
  | @bindDev t dev v q hpc =>
      obtain rfl := hl t dev rfl
      exact h.bindDev
  | @push t kind v q hpc hkind =>
      have hbound := h.bound_of_session (t := t) (by rw [hpc]; rfl) (by simp [hpc])
      exact h.push hbound _ rfl rfl h.sessions
  | @finish t v q hpc =>
      have hbound := h.bound_of_session (t := t) (q := q) (by rw [hpc]; rfl) (by simp [hpc])
      refine h.push hbound _ rfl rfl (h.sessions_enter fun p hp => ?_)
      cases hp
      exact hbound
  | @passWait t v q p hpc hsem =>
      have hbound := h.bound_of_session (t := t) (q := q) (by rw [hpc]; rfl) (by simp [hpc])
      refine h.keep rfl (fun _ => rfl) (fun _ _ hempty => hempty) (h.sessions_enter fun p hp => ?_)
      cases hp
      exact hbound
  | @seeEmpty t v q hpc hempty =>
      have hbound := h.bound_of_session (t := t) (q := q) (by rw [hpc]; rfl) (by simp [hpc])
      refine h.keep rfl (fun _ => rfl) (fun _ _ hempty => hempty) (h.sessions_enter fun p hp => ?_)
      cases hp
      exact hbound
  | teardown hpc hlock =>
      refine h.keep rfl (fun q => ?_) (fun q _ hempty => ?_) (h.sessions_leave rfl)
      · simp [State.enter, State.withNode, Node.destroyQueue]
      · simpa [State.enter, State.withNode, Node.destroyQueue] using hempty
  | take hpc hsem =>
      exact h.goto rfl rfl (fun _ => rfl) (fun _ => id) fun _ => ⟨(by intro hpc; cases hpc), rfl⟩
  | @check w hpc =>
      refine h.goto rfl rfl (fun _ => rfl) (fun _ => id) fun hw => ?_
      rw [h.check_eq_false hw]
      exact ⟨(by intro hpc; cases hpc), rfl⟩
  | giveBack hpc =>
      exact h.goto rfl rfl (fun _ => rfl) (fun _ => id) fun _ => ⟨(by intro hpc; cases hpc), rfl⟩
  | @pick w q comm rest hpc hlock hq hfront =>
      refine h.goto rfl rfl (fun p => ?_) (fun p => ?_) fun hw => ?_
      · refine Node.setQueue_congr (f := CommandQueue.bindingDev) ?_ p
        rfl
      · exact (Node.setSkip_queue _ _ _ _).trans
      · exact absurd (h.eq_of_busy hpc (.inl rfl)) hw
  | @beginExec w q comm hpc =>
      have hworker : ((s.exec comm).goto w (.executing q comm)).worker =
          Function.update s.worker w (.executing q comm) := by simp [State.goto]
      refine h.goto hworker (by simp [State.goto]) (by simp [State.goto]) (by simp [State.goto])
        fun hw => ?_
      exact absurd (h.eq_of_queue hpc rfl) hw
  | endExec hpc =>
      refine h.goto rfl rfl (fun _ => rfl) (fun _ => id) fun hw => ?_
      exact absurd (h.eq_of_queue hpc rfl) hw
  | account hpc hlock =>
      refine h.goto rfl rfl (fun _ => rfl) (fun _ => id) fun hw => ?_
      exact absurd (h.eq_of_queue hpc rfl) hw
  | @pop w q hpc =>
      refine h.goto rfl rfl (fun p => ?_) (fun p hempty => ?_) fun hw => ?_
      · refine Node.setQueue_congr (f := CommandQueue.bindingDev) ?_ p
        rfl
      · by_cases hp : p = q
        · subst hp
          simp [State.goto, State.withNode, Node.pop, hempty]
        · simpa [State.goto, State.withNode, Node.pop, hp] using hempty
      · exact absurd (h.eq_of_queue hpc rfl) hw
  | testEmpty hpc hempty =>
      refine h.goto rfl rfl (fun _ => rfl) (fun _ => id) fun hw => ?_
      exact absurd (h.eq_of_queue hpc rfl) hw
  | testNonempty hpc hempty =>
      refine h.goto rfl rfl (fun _ => rfl) (fun _ => id) fun hw => ?_
      exact absurd (h.eq_of_queue hpc rfl) hw
  | clearSkip hpc =>
      refine h.goto rfl rfl (fun p => ?_) (fun p => ?_) fun _ => ⟨(by intro hpc; cases hpc), rfl⟩
      · refine Node.setQueue_congr (f := CommandQueue.bindingDev) ?_ p
        rfl
      · exact (Node.setSkip_queue _ _ _ _).trans

end Devoted

variable [Arith K] [DecidableEq W] [DecidableEq T] {s : State K W T} {ls : List (Label K W T)}

lemma devoted_of_exec {d : W} (h : computeNode.exec State.init ls = some s)
    (hls : ∀ t dev, .bindDev t dev ∈ ls → dev = d) : Devoted d s := by
  refine computeNode.exec_induction (P := fun ls s =>
    (∀ t dev, .bindDev t dev ∈ ls → dev = d) → Devoted d s) ?_ ?_ h hls
  · exact fun _ => ⟨fun _ => .inr rfl, nofun, fun _ _ => ⟨(by intro hpc; cases hpc), rfl⟩⟩
  · intro ls s l s' hs ih hl hls
    have hdevoted := ih fun t dev hmem => hls t dev (List.mem_append_left _ hmem)
    refine hdevoted.step (coherent_of_exec hs) (step_inv hl) ?_
    rintro t dev rfl
    exact hls t dev (List.mem_append_right _ (List.mem_singleton_self _))

/-- The worker has a command at hand. -/
def Busy (s : State K W T) (w : W) : Prop := (s.worker w).queue ≠ none

/-- **One device.**  In a run whose sessions are all bound to one device, no other device is ever
given a command, so that at any time at most one command of all sessions is at work. -/
theorem one_device {d : W} (h : computeNode.exec State.init ls = some s)
    (hls : ∀ t dev, .bindDev t dev ∈ ls → dev = d) :
    (∀ w, Busy s w → w = d) ∧
      ∀ w w' q q' comm comm', s.worker w = .executing q comm → s.worker w' = .executing q' comm' →
        q = q' ∧ comm = comm' := by
  have hdevoted := devoted_of_exec h hls
  refine ⟨fun w hw => ?_, fun w w' q q' comm comm' hpc hpc' => ?_⟩
  · exact hdevoted.eq_of_busy rfl (.inr hw)
  · obtain rfl := hdevoted.eq_of_queue hpc rfl
    obtain rfl := hdevoted.eq_of_queue hpc' rfl
    rw [hpc] at hpc'
    cases hpc'
    exact ⟨rfl, rfl⟩

/-- Two devices, and two clients with a command each. -/
def twoDevices : List (Label ℝ Bool Bool) :=
  [.connect true 1, .createQueue true, .bindDev true false, .push true .write, .connect false 1,
    .createQueue false, .bindDev false false, .push false .write, .take true, .check true]

/-- The second device's worker has taken a token and is refused. -/
theorem one_device_run : ∃ s, computeNode.exec State.init twoDevices = some s ∧
    s.worker true = .refused ∧ ∀ w, Busy s w → w = false := by
  have hrun : computeNode.exec State.init twoDevices = some _ := rfl
  have hbound : ∀ t dev, .bindDev t dev ∈ twoDevices → dev = false := by
    simp [twoDevices]
  exact ⟨_, hrun, rfl, (one_device hrun hbound).1⟩

end ElasticFramework
