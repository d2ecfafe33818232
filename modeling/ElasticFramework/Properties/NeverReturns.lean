import ElasticFramework.Construction.ElasticRun
import ElasticFramework.Properties.RunThreads
import ElasticFramework.Properties.SessionBooks

/-!
# `ElasticClient::run` does not return

`runThread` reads the outputs of its level with blocking reads.  The caller of a blocking read waits
on the non-blocking socket, and the node answers it on the main socket.  Nothing else is sent on the
non-blocking socket unless some read does not block, and an `ElasticClient` has none of those; so
the thread of a level with an output stays in its first read, and `run` in `pthread_join`
(`run_never_returns`).

`Session.Dry` is the invariant of a session whose calls are framed and have no catchers, and
`Stalled` what it comes to for the threads.
-/

namespace ElasticFramework

open Reader

/-! ## A session without catchers -/

/-- The request of a call, and nothing will be sent on the non-blocking socket for it. -/
def Invocation.Dry (c : Invocation) (r : Request) : Prop :=
  Yields nextRequest c.bytes (.ok r) ∧ r.command.bind QueuedCommand.sends = none

lemma Invocation.exists_dry {c : Invocation} {sent : Sent} (hframed : c.call.Framed)
    (hcatches : c.call.catches = none) (hsent : c.sent = some sent)
    (hexited : sent.exited = false) :
    c.bytes = sent.bytes ∧ ∃ r, c.Dry r := by
  obtain ⟨sent', r, hsent', hdecodes, hyields⟩ := hframed.read
  rw [hsent, Option.some.injEq] at hsent'
  subst hsent'
  rw [hexited] at hyields
  have hbytes : c.bytes = sent.bytes := by
    rw [Invocation.bytes, hsent]
    rfl
  refine ⟨hbytes, r, hbytes ▸ hyields, ?_⟩
  rw [hdecodes.sends_eq, hcatches]
  rfl

/-- No handler replies on the non-blocking socket. -/
lemma Request.nonBlocking_notMem_replies (r : Request) : .nonBlocking ∉ r.replies.map Prod.fst := by
  cases r with
  | enqueueReadBuffer memId offset cb blockingRead =>
      simp only [Request.replies]
      split <;> simp
  | enqueueWriteBuffer memId offset cb blockingWrite data =>
      simp only [Request.replies]
      split <;> simp
  | _ => simp [Request.replies]

/-- Nothing has been sent on the non-blocking socket, and nothing will be for the pending calls. -/
structure Session.Dry (s : Session) (pending : List Invocation) : Prop where
  inbox : s.inbox = pending.flatMap Invocation.bytes
  requests : ∀ c ∈ pending, ∃ r, c.Dry r
  queue : ∀ x ∈ s.queue, x.2.sends = none
  ports : .nonBlocking ∉ s.run.ports
  catchers : s.catchers = []
  wire : s.wire .nonBlocking = []

namespace Session.Dry

variable {s s' : Session} {pending : List Invocation}

lemma of_init : Session.init.Dry [] where
  inbox := rfl
  requests := by simp
  queue := by simp [Session.init]
  ports := by simp [Session.init, RunTurn.ports]
  catchers := rfl
  wire := rfl

lemma call {c : Invocation} (h : s.Dry pending) (hframed : c.call.Framed)
    (hcatches : c.call.catches = none) (hs : s.call c = some s') :
    ∃ pending, s'.Dry pending := by
  unfold Session.call at hs
  split at hs
  swap
  · cases hs
  rename_i sent hreading hsent
  split at hs
  · cases hs
    exact ⟨pending, h.inbox, h.requests, h.queue, h.ports, h.catchers, h.wire⟩
  · rename_i hexited
    obtain ⟨hbytes, hdry⟩ := Invocation.exists_dry hframed hcatches hsent (by simpa using hexited)
    cases hs
    refine ⟨pending ++ [c], ?_, ?_, h.queue, h.ports, ?_, h.wire⟩
    · rw [List.flatMap_append, List.flatMap_singleton, hbytes, ← h.inbox]
    · intro d hd
      rcases List.mem_append.1 hd with hd | hd
      · exact h.requests d hd
      · obtain rfl := List.mem_singleton.1 hd
        exact hdry
    · change s.catchers ++ _ = []
      rw [h.catchers, hcatches]
      rfl

lemma recv {n : ℕ} (h : s.Dry pending) (hs : s.recv n = some s') : s'.Dry pending := by
  unfold Session.recv at hs
  split at hs
  swap
  · cases hs
  rename_i request p left hreading
  split at hs
  · cases hs
    exact ⟨h.inbox, h.requests, h.queue, h.ports, h.catchers, h.wire⟩
  · split at hs
    · cases hs
      refine ⟨h.inbox, h.requests, h.queue, h.ports, h.catchers, ?_⟩
      by_cases hp : p = .nonBlocking
      · subst hp
        simp [h.wire]
      · exact (Function.update_of_ne (Ne.symm hp) ..).trans h.wire
    · cases hs

lemma serve (h : s.Dry pending) (hs : s.serve = some s') : ∃ pending, s'.Dry pending := by
  unfold Session.serve at hs
  split at hs
  swap
  · cases hs
  cases pending with
  | nil =>
      have hwait : nextRequest s.inbox = (.error .wait, []) := by
        rw [h.inbox]
        rfl
      rw [hwait] at hs
      cases hs
  | cons c rest =>
      obtain ⟨r, hyields, hsends⟩ := h.requests c (List.mem_cons_self ..)
      have hnext : nextRequest s.inbox = (.ok r, rest.flatMap Invocation.bytes) := by
        rw [h.inbox, List.flatMap_cons]
        exact hyields _
      rw [hnext] at hs
      cases hs
      refine ⟨rest, rfl, fun d hd => h.requests d (List.mem_cons_of_mem _ hd), fun x hx => ?_, ?_,
        h.catchers, h.wire⟩
      · rcases List.mem_append.1 hx with hx | hx
        · exact h.queue x hx
        · obtain ⟨command, hcommand, rfl⟩ := Option.map_eq_some_iff.1 (Option.mem_toList.1 hx)
          rwa [hcommand] at hsends
      · change .nonBlocking ∉ (r.turn s.served).ports
        rw [Request.ports_turn]
        exact r.nonBlocking_notMem_replies

lemma wait (h : s.Dry pending) (hs : s.wait = some s') : s'.Dry pending := by
  unfold Session.wait at hs
  split at hs
  · rename_i request replies hrun
    cases hs
    have hports := h.ports
    rw [hrun] at hports
    exact ⟨h.inbox, h.requests, h.queue, hports, h.catchers, h.wire⟩
  · cases hs

lemma reply (h : s.Dry pending) (hs : s.reply = some s') : s'.Dry pending := by
  have hports := h.ports
  unfold Session.reply at hs
  split at hs
  · cases hs
    exact ⟨h.inbox, h.requests, h.queue, List.not_mem_nil, h.catchers, h.wire⟩
  · rename_i request p n replies hrun
    rw [hrun] at hports
    obtain ⟨hp, hreplies⟩ := not_or.1 (List.mem_cons.not.1 hports)
    split at hs
    · cases hs
      exact ⟨h.inbox, h.requests, h.queue, h.ports, h.catchers, h.wire⟩
    · cases hs
      refine ⟨h.inbox, h.requests, h.queue, hreplies, h.catchers, ?_⟩
      exact (Function.update_of_ne hp ..).trans h.wire
  · cases hs

/-- The thread that waits for the command goes on, or nobody does. -/
lemma wake (h : s.Dry pending) (request : ℕ) : (s.wake request).Dry pending := by
  unfold Session.wake
  split
  · rename_i waiter replies hrun
    have hports := h.ports
    rw [hrun] at hports
    split
    · exact ⟨h.inbox, h.requests, h.queue, hports, h.catchers, h.wire⟩
    · exact h
  · exact h

lemma exec (h : s.Dry pending) (hs : s.exec = some s') : s'.Dry pending := by
  unfold Session.exec at hs
  split at hs
  swap
  · cases hs
  rename_i request command queue hawaiting hqueue
  have hall := h.queue
  rw [hqueue] at hall
  obtain ⟨hsends, hrest⟩ := List.forall_mem_cons.1 hall
  have hdry : Session.Dry { s with queue := queue } pending :=
    ⟨h.inbox, h.requests, hrest, h.ports, h.catchers, h.wire⟩
  split at hs
  · cases hs
    exact hdry.wake request
  · rename_i hwakes
    split at hs
    · rename_i blockingRead cb
      have hblocking : ¬ blockingRead = true := hwakes
      rw [QueuedCommand.sends, if_neg hblocking] at hsends
      cases hsends
    · cases hs
      exact hdry

lemma ack (h : s.Dry pending) (hs : s.ack = some s') : s'.Dry pending := by
  unfold Session.ack at hs
  split at hs
  · split at hs
    · cases hs
      exact ⟨h.inbox, h.requests, h.queue, h.ports, h.catchers, h.wire⟩
    · cases hs
  · cases hs

/-- A framed call without a catcher, or any other move. -/
lemma step {l : SessionStep} (h : s.Dry pending)
    (hl : ∀ c, l = .call c → c.call.Framed ∧ c.call.catches = none)
    (hs : session.step s l = some s') : ∃ pending, s'.Dry pending := by
  have hmove : s.move l = some s' := by
    simp only [session] at hs
    split at hs
    · cases hs
    · exact hs
  cases l with
  | call c => exact h.call (hl c rfl).1 (hl c rfl).2 hmove
  | recv n => exact ⟨pending, h.recv hmove⟩
  | catcher i n =>
      obtain ⟨request, left, hi, -⟩ := Session.catcher_inv hmove
      rw [h.catchers] at hi
      cases hi
  | serve => exact h.serve hmove
  | wait => exact ⟨pending, h.wait hmove⟩
  | reply => exact ⟨pending, h.reply hmove⟩
  | exec => exact ⟨pending, h.exec hmove⟩
  | ack => exact ⟨pending, h.ack hmove⟩

end Session.Dry

/-! ## The caller of a blocking read -/

lemma Call.BlockingRead.catches {c : Call} (h : c.BlockingRead) :
    c.catches = none := by
  cases c with
  | enqueueReadBuffer memId offset cb blockingRead => exact if_pos h
  | _ => exact h.elim

/-- The caller's thread waits for bytes of the non-blocking socket. -/
def Session.Waits (s : Session) : Prop :=
  ∃ request left, s.reading = some (request, .nonBlocking, left)

namespace Session

variable {s s' : Session} {pending : List Invocation}

/-- A blocking read waits there, unless it has ended the client. -/
lemma waits_of_call {c : Invocation} (hc : c.call.BlockingRead) (hs : s.call c = some s') :
    s'.exited = true ∨ s'.Waits := by
  unfold Session.call at hs
  split at hs
  swap
  · cases hs
  split at hs
  · cases hs
    exact .inl rfl
  · cases hs
    obtain ⟨call, stack⟩ := c
    cases call with
    | enqueueReadBuffer memId offset cb blockingRead =>
        have hblocking : blockingRead ≠ 0 := hc
        refine .inr ⟨s.made, cb % 2 ^ 32, ?_⟩
        simp [Call.reads, hblocking]
    | _ => exact hc.elim

/-- Once it waits there, it does so for good. -/
lemma Waits.step {l : SessionStep} (h : s.Waits) (hdry : s.Dry pending)
    (hs : session.step s l = some s') : s'.Waits := by
  obtain ⟨request, left, hreading⟩ := h
  have hmove : s.move l = some s' := by
    simp only [session] at hs
    split at hs
    · cases hs
    · exact hs
  have hkeep : ∀ {x : Session}, x.reading = s.reading → x.Waits :=
    fun hx => ⟨request, left, hx.trans hreading⟩
  cases l with
  | call c => simp [Session.move, Session.call, hreading] at hmove
  | recv n =>
      simp only [Session.move, Session.recv, hreading] at hmove
      split at hmove
      · cases hmove
        exact ⟨request, left, rfl⟩
      · split at hmove
        · rename_i hn
          rw [hdry.wire, List.length_nil] at hn
          omega
        · cases hmove
  | catcher i n =>
      obtain ⟨request', left', hi, -⟩ := Session.catcher_inv hmove
      rw [hdry.catchers] at hi
      cases hi
  | serve =>
      simp only [Session.move, Session.serve] at hmove
      split at hmove
      · split at hmove <;> cases hmove <;> exact hkeep rfl
      · cases hmove
  | wait =>
      simp only [Session.move, Session.wait] at hmove
      split at hmove <;> cases hmove
      exact hkeep rfl
  | reply =>
      simp only [Session.move, Session.reply] at hmove
      split at hmove
      · cases hmove
        exact hkeep rfl
      · split at hmove <;> cases hmove <;> exact hkeep rfl
      · cases hmove
  | exec =>
      simp only [Session.move, Session.exec] at hmove
      split at hmove
      swap
      · cases hmove
      split at hmove
      · cases hmove
        refine hkeep ?_
        unfold Session.wake
        split
        · split <;> rfl
        · rfl
      · split at hmove
        · split at hmove <;> cases hmove <;> exact hkeep rfl
        · cases hmove
          exact hkeep rfl
  | ack =>
      simp only [Session.move, Session.ack] at hmove
      split at hmove
      · split at hmove <;> cases hmove
        exact hkeep rfl
      · cases hmove

end Session

/-! ## The threads of `run` -/

namespace ElasticClient

/-- The calls are framed, those of `init` and of the caller's thread have no catcher, and the others
are blocking reads. -/
structure LevelPlan.Blocks (plan : LevelPlan) : Prop where
  setup : ∀ c ∈ plan.setup, c.Framed ∧ c.catches = none
  sends : ∀ c ∈ plan.sends, c.Framed ∧ c.catches = none
  reads : ∀ c ∈ plan.reads, c.Framed ∧ c.BlockingRead

namespace ElasticRun

variable {cnNum : ℕ} {plan : ℕ → LevelPlan} {s s' : ElasticRun}

/-- A session that has been asked for an output waits, its thread is in `runThread` still, and no
thread has asked for a second one. -/
structure Stalled (plan : ℕ → LevelPlan) (s : ElasticRun) : Prop where
  dry : ∀ level, ∃ pending, (s.session level).Dry pending
  fresh : ∀ pid, s.threads.threads.length ≤ pid → s.asked pid = 0
  once : ∀ pid, s.asked pid ≤ 1
  waits : ∀ (pid : ℕ) (thread : LevelThread), s.threads.threads[pid]? = some thread →
    s.asked pid ≠ 0 → s.exited = true ∨ (s.session thread.level).Waits
  reading : ∀ (pid : ℕ) (thread : LevelThread), s.threads.threads[pid]? = some thread →
    (plan thread.level).reads ≠ [] → thread.pc = .reading

lemma move_inv {level : ℕ} {l : SessionStep} (hs : s.move level l = some s') :
    ∃ x, ElasticFramework.session.step (s.session level) l = some x ∧
      s' = { s with session := Function.update s.session level x, exited := x.exited } := by
  obtain ⟨x, hx, rfl⟩ := Option.map_eq_some_iff.1 hs
  exact ⟨x, hx, rfl⟩

lemma call_inv {level made : ℕ} {calls : List Call} {stack : Stack}
    (hs : s.call level made calls stack = some s') :
    ∃ c ∈ calls, s.move level (.call ⟨c, stack⟩) = some s' := by
  obtain ⟨c, hc, hmove⟩ := Option.bind_eq_some_iff.1 hs
  exact ⟨c, List.mem_of_getElem? hc, hmove⟩

/-- A thread of the client moves; or a session does, and if it is by a call then by one of `init` or
of the caller's thread; or a thread asks for an output. -/
lemma step_cases {l : ElasticStep} (hs : (elasticRun cnNum plan).step s l = some s') :
    s.exited = false ∧
      ((∃ l threads sent, s.ready cnNum plan l = true ∧
          RunThreads.step cnNum s.threads l = some threads ∧
          s' = { s with threads := threads, sent := sent }) ∨
        (∃ level l s₁ prepared sent,
          (∀ c, l = .call c → c.call ∈ (plan level).setup ++ (plan level).sends) ∧
          s.move level l = some s₁ ∧ s' = { s₁ with prepared := prepared, sent := sent }) ∨
        ∃ (pid : ℕ) (thread : LevelThread) (stack : Stack) (s₁ : ElasticRun),
          s.threads.threads[pid]? = some thread ∧
          s.call thread.level (s.asked pid) (plan thread.level).reads stack = some s₁ ∧
          s' = { s₁ with asked := Function.update s.asked pid (s.asked pid + 1) }) := by
  simp only [elasticRun] at hs
  split at hs
  · cases hs
  rename_i hexited
  refine ⟨by simpa using hexited, ?_⟩
  cases l with
  | thread l =>
      simp only [ElasticRun.step] at hs
      split at hs
      · rename_i hready
        obtain ⟨threads, hl, rfl⟩ := Option.map_eq_some_iff.1 hs
        exact .inl ⟨l, threads, _, hready, hl, rfl⟩
      · cases hs
  | setup level stack =>
      simp only [ElasticRun.step] at hs
      split at hs
      · obtain ⟨s₁, hcall, rfl⟩ := Option.map_eq_some_iff.1 hs
        obtain ⟨c, hc, hmove⟩ := call_inv hcall
        refine .inr (.inl ⟨level, _, s₁, _, s₁.sent, fun d hd => ?_, hmove, rfl⟩)
        cases hd
        exact List.mem_append_left _ hc
      · cases hs
  | send stack =>
      simp only [ElasticRun.step] at hs
      split at hs
      · rename_i level hpc
        obtain ⟨s₁, hcall, rfl⟩ := Option.map_eq_some_iff.1 hs
        obtain ⟨c, hc, hmove⟩ := call_inv hcall
        refine .inr (.inl ⟨level, _, s₁, s₁.prepared, _, fun d hd => ?_, hmove, rfl⟩)
        cases hd
        exact List.mem_append_right _ hc
      · cases hs
  | read pid stack =>
      simp only [ElasticRun.step] at hs
      split at hs
      · rename_i thread ht
        split at hs
        · obtain ⟨s₁, hcall, rfl⟩ := Option.map_eq_some_iff.1 hs
          exact .inr (.inr ⟨pid, thread, stack, s₁, ht, hcall, rfl⟩)
        · cases hs
      · cases hs
  | session level l =>
      simp only [ElasticRun.step] at hs
      split at hs
      · cases hs
      · rename_i hl
        exact .inr (.inl ⟨level, l, s', s'.prepared, s'.sent, fun c hc => (hl c hc).elim, hs, rfl⟩)

namespace Stalled

lemma of_init : Stalled plan init where
  dry _ := ⟨[], .of_init⟩
  fresh _ _ := rfl
  once _ := Nat.zero_le 1
  waits pid thread h := by cases h
  reading pid thread h := by cases h

/-- A session moves. -/
lemma move (h : Stalled plan s) (hexited : s.exited = false) {level : ℕ} {l : SessionStep}
    (hl : ∀ c, l = .call c → c.call.Framed ∧ c.call.catches = none)
    (hs : s.move level l = some s') : Stalled plan s' := by
  obtain ⟨x, hx, rfl⟩ := move_inv hs
  obtain ⟨pending, hdry⟩ := h.dry level
  refine ⟨fun k => ?_, h.fresh, h.once, fun pid thread ht hasked => .inr ?_, h.reading⟩
  · by_cases hk : k = level
    · subst hk
      change ∃ pending, (Function.update s.session k x k).Dry pending
      rw [Function.update_self]
      exact hdry.step hl hx
    · change ∃ pending, (Function.update s.session level x k).Dry pending
      rw [Function.update_of_ne hk]
      exact h.dry k
  · have hwaits := (h.waits pid thread ht hasked).resolve_left (by simp [hexited])
    change (Function.update s.session level x thread.level).Waits
    by_cases hk : thread.level = level
    · rw [hk] at hwaits ⊢
      rw [Function.update_self]
      exact hwaits.step hdry hx
    · rwa [Function.update_of_ne hk]

/-- A thread asks for an output. -/
lemma read (h : Stalled plan s) (hexited : s.exited = false) {pid made : ℕ} {thread : LevelThread}
    {stack : Stack} (ht : s.threads.threads[pid]? = some thread)
    (hreads : ∀ c ∈ (plan thread.level).reads, c.Framed ∧ c.BlockingRead)
    (hs : s.call thread.level made (plan thread.level).reads stack = some s') :
    Stalled plan { s' with asked := Function.update s.asked pid (s.asked pid + 1) } := by
  obtain ⟨c, hc, hmove⟩ := call_inv hs
  obtain ⟨hframed, hblocking⟩ := hreads c hc
  have hstalled := h.move hexited (l := .call ⟨c, stack⟩)
    (fun d hd => by cases hd; exact ⟨hframed, hblocking.catches⟩) hmove
  obtain ⟨x, hx, rfl⟩ := move_inv hmove
  have hcall : (s.session thread.level).call ⟨c, stack⟩ = some x := by
    simp only [ElasticFramework.session] at hx
    split at hx
    · cases hx
    · exact hx
  have hfirst : s.asked pid = 0 := by
    by_contra hasked
    obtain ⟨request, left, hreading⟩ :=
      (h.waits pid thread ht hasked).resolve_left (by simp [hexited])
    simp [Session.call, hreading] at hcall
  refine ⟨hstalled.dry, fun p hp => ?_, fun p => ?_, fun p t hpt hasked => ?_, hstalled.reading⟩
  · have hne : p ≠ pid := by
      rintro rfl
      exact absurd (List.getElem?_eq_some_iff.1 ht).1 (not_lt.2 hp)
    exact (Function.update_of_ne hne ..).trans (h.fresh p hp)
  · change Function.update s.asked pid _ p ≤ 1
    by_cases hp : p = pid
    · subst hp
      rw [Function.update_self, hfirst]
    · rw [Function.update_of_ne hp]
      exact h.once p
  · by_cases hp : p = pid
    · subst hp
      cases ht.symm.trans hpt
      refine (Session.waits_of_call hblocking hcall).imp id fun hwaits => ?_
      change (Function.update s.session thread.level x thread.level).Waits
      rwa [Function.update_self]
    · change Function.update s.asked pid _ p ≠ 0 at hasked
      rw [Function.update_of_ne hp] at hasked
      exact hstalled.waits p t hpt hasked

/-- The sessions stay as they are, and a thread that has outputs does not move. -/
lemma threads (h : Stalled plan s) {threads : RunThreads} {sent : ℕ}
    (hlength : s.threads.threads.length ≤ threads.threads.length)
    (hthreads : ∀ (pid : ℕ) (thread : LevelThread), threads.threads[pid]? = some thread →
      (∃ old : LevelThread, s.threads.threads[pid]? = some old ∧ old.level = thread.level ∧
        (thread.pc = old.pc ∨ (plan old.level).reads = [])) ∨
      s.threads.threads.length ≤ pid ∧ thread.pc = .reading) :
    Stalled plan { s with threads := threads, sent := sent } where
  dry := h.dry
  fresh pid hpid := h.fresh pid (hlength.trans hpid)
  once := h.once
  waits pid thread ht hasked := by
    rcases hthreads pid thread ht with ⟨old, hold, hlevel, -⟩ | ⟨hpid, -⟩
    · rw [← hlevel]
      exact h.waits pid old hold hasked
    · exact absurd (h.fresh pid hpid) hasked
  reading pid thread ht hreads := by
    rcases hthreads pid thread ht with ⟨old, hold, hlevel, hpc | hnil⟩ | ⟨-, hpc⟩
    · rw [hpc]
      exact h.reading pid old hold (hlevel ▸ hreads)
    · rw [hlevel] at hnil
      exact absurd hnil hreads
    · exact hpc

/-- Where no thread moves. -/
lemma same (h : Stalled plan s) {threads : RunThreads} {sent : ℕ}
    (hthreads : threads.threads = s.threads.threads) :
    Stalled plan { s with threads := threads, sent := sent } :=
  h.threads (le_of_eq (by rw [hthreads])) fun pid thread ht =>
    .inl ⟨thread, hthreads ▸ ht, rfl, .inl rfl⟩

/-- A thread that has outputs to read does not get past them. -/
lemma advance (h : Stalled plan s) {threads : RunThreads} {sent pid : ℕ} {pc pc' : LevelPc}
    (hl : s.threads.advance pid pc pc' = some threads)
    (hreads : ∀ thread : LevelThread, s.threads.threads[pid]? = some thread → thread.pc = pc →
      (plan thread.level).reads = []) :
    Stalled plan { s with threads := threads, sent := sent } := by
  obtain ⟨old, hold, hpc, rfl⟩ := RunThreads.advance_inv hl
  refine h.threads (List.length_set).ge fun p thread ht => .inl ?_
  by_cases hp : pid = p
  · subst hp
    change (s.threads.threads.set pid { old with pc := pc' })[pid]? = some thread at ht
    rw [List.getElem?_set_self (List.getElem?_eq_some_iff.1 hold).1, Option.some.injEq] at ht
    subst ht
    exact ⟨old, hold, rfl, .inr (hreads old hold hpc)⟩
  · change (s.threads.threads.set pid { old with pc := pc' })[p]? = some thread at ht
    rw [List.getElem?_set_ne hp] at ht
    exact ⟨thread, ht, rfl, .inl rfl⟩

/-- A thread of the client moves. -/
lemma thread (h : Stalled plan s) (hexited : s.exited = false) {l : RunStep} {threads : RunThreads}
    {sent : ℕ} (hready : s.ready cnNum plan l = true)
    (hl : RunThreads.step cnNum s.threads l = some threads) :
    Stalled plan { s with threads := threads, sent := sent } := by
  cases l with
  | call =>
      simp only [RunThreads.step] at hl
      split at hl <;> cases hl
      exact h.same (RunThreads.createFrom_threads _ _)
  | create =>
      simp only [RunThreads.step] at hl
      split at hl <;> cases hl
      rename_i level hpc
      refine h.threads ?_ fun pid thread ht => ?_
      · rw [RunThreads.createFrom_threads, RunThreads.length_spawn]
        exact Nat.le_succ _
      · rw [RunThreads.createFrom_threads] at ht
        rcases RunThreads.getElem?_spawn.1 ht with hold | ⟨rfl, rfl⟩
        · exact .inl ⟨thread, hold, rfl, .inl rfl⟩
        · exact .inr ⟨le_rfl, rfl⟩
  | join =>
      simp only [RunThreads.step] at hl
      split at hl
      · split at hl <;> cases hl
        exact h.same rfl
      · cases hl
  | finishCallback pid =>
      refine h.advance hl fun thread ht _ => ?_
      -- the thread has asked for all its outputs, and its session does not wait
      simp only [ready, ht, returned, Bool.and_eq_true, decide_eq_true_eq,
        Option.isNone_iff_eq_none] at hready
      obtain ⟨hasked, hreading⟩ := hready
      by_contra hne
      have hpos : s.asked pid ≠ 0 := by
        rw [hasked]
        exact (List.length_pos_iff.2 hne).ne'
      obtain ⟨request, left, hwaits⟩ :=
        (h.waits pid thread ht hpos).resolve_left (by simp [hexited])
      rw [hreading] at hwaits
      cases hwaits
  | exit pid =>
      refine h.advance hl fun thread ht hpc => ?_
      by_contra hne
      rw [h.reading pid thread ht hne] at hpc
      cases hpc

lemma step (hplan : ∀ level, (plan level).Blocks) (h : Stalled plan s) {l : ElasticStep}
    (hs : (elasticRun cnNum plan).step s l = some s') : Stalled plan s' := by
  obtain ⟨hexited, hcases⟩ := step_cases hs
  rcases hcases with ⟨l, threads, sent, hready, hl, rfl⟩ |
    ⟨level, l, s₁, prepared, sent, hl, hmove, rfl⟩ | ⟨pid, thread, stack, s₁, ht, hcall, rfl⟩
  · exact h.thread hexited hready hl
  · have hcalls : ∀ c, l = .call c → c.call.Framed ∧ c.call.catches = none := fun c hc =>
      (List.mem_append.1 (hl c hc)).elim ((hplan level).setup _) ((hplan level).sends _)
    have hstalled := h.move hexited hcalls hmove
    exact ⟨hstalled.dry, hstalled.fresh, hstalled.once, hstalled.waits, hstalled.reading⟩
  · exact h.read hexited ht (hplan thread.level).reads hcall

end Stalled

/-- The threads of `run` are those of `Construction/RunThreads.lean`. -/
lemma exec_threads {ls : List ElasticStep} (h : (elasticRun cnNum plan).exec init ls = some s) :
    ∃ ks, (runThreads cnNum).exec RunThreads.init ks = some s.threads := by
  refine (elasticRun cnNum plan).exec_project threads (fun s l s' hs => ?_) h
  obtain ⟨-, hcases⟩ := step_cases hs
  rcases hcases with ⟨l, threads, sent, -, hl, rfl⟩ |
    ⟨level, l, s₁, prepared, sent, -, hmove, rfl⟩ | ⟨pid, thread, stack, s₁, -, hcall, rfl⟩
  · exact .inr ⟨l, hl⟩
  · obtain ⟨x, -, rfl⟩ := move_inv hmove
    exact .inl rfl
  · obtain ⟨c, -, hmove⟩ := call_inv hcall
    obtain ⟨x, -, rfl⟩ := move_inv hmove
    exact .inl rfl

end ElasticRun

/-! ## The result -/

/-- All calls on the connection of a level. -/
def LevelPlan.calls (plan : LevelPlan) : List Call := plan.setup ++ (plan.sends ++ plan.reads)

/-- A level has calls without catchers and blocking reads, and no others. -/
lemma LevelRun.plan_blocks (k : KernelFile) (host : Host) (args : List (ℕ × ℕ × ℕ)) (r : LevelRun)
    (hframed : ∀ c ∈ (r.plan k host args).calls, c.Framed) : (r.plan k host args).Blocks where
  setup c hc := by
    refine ⟨hframed c (List.mem_append_left _ hc), ?_⟩
    simp only [plan, List.mem_append, List.mem_cons, List.not_mem_nil, or_false,
      List.mem_map] at hc
    rcases hc with (rfl | rfl | rfl | rfl) | ⟨e, -, rfl⟩ | ⟨e, -, rfl⟩ <;> rfl
  sends c hc := by
    refine ⟨hframed c (List.mem_append_right _ (List.mem_append_left _ hc)), ?_⟩
    simp only [plan, List.mem_append, List.mem_cons, List.not_mem_nil, or_false,
      List.mem_map] at hc
    rcases hc with ⟨e, -, rfl⟩ | rfl <;> rfl
  reads c hc := by
    refine ⟨hframed c (List.mem_append_right _ (List.mem_append_right _ hc)), ?_⟩
    obtain ⟨e, -, rfl⟩ := List.mem_map.1 hc
    exact (by decide : (1 : UInt32) ≠ 0)

/-- **`run` does not return.**  When all calls are framed, `work_item` has an entry for each level
and some level has an output, then in no state of a client that has called `run` has it returned,
and each thread of a level with outputs is in its reads and has not got past the first. -/
theorem run_never_returns {cnNum level : ℕ} {k : KernelFile} {host : Host}
    {args : List (ℕ × ℕ × ℕ)} {r : ℕ → LevelRun} {ls : List ElasticStep} {s : ElasticRun}
    (h : (elasticRun cnNum fun level => (r level).plan k host args).exec .init ls = some s)
    (hframed : ∀ level, ∀ c ∈ ((r level).plan k host args).calls, c.Framed)
    (hcount : cnNum ≤ RunThreads.workItems) (hlevel : level < cnNum)
    (houtputs : (r level).outputs ≠ []) (hrun : 0 < s.threads.runs) :
    s.threads.pc ≠ .outside ∧ ∀ pid thread, s.threads.threads[pid]? = some thread →
      (r thread.level).outputs ≠ [] → thread.pc = .reading ∧ s.asked pid ≤ 1 := by
  have hstalled : ElasticRun.Stalled (fun level => (r level).plan k host args) s :=
    (elasticRun cnNum _).invariant .of_init
      (fun s l s' hs => hs.step fun level => (r level).plan_blocks k host args (hframed level)) h
  have hreading : ∀ (pid : ℕ) (thread : LevelThread), s.threads.threads[pid]? = some thread →
      (r thread.level).outputs ≠ [] → thread.pc = .reading := by
    intro pid thread ht hne
    refine hstalled.reading pid thread ht ?_
    simpa [LevelRun.plan] using hne
  obtain ⟨ks, hks⟩ := ElasticRun.exec_threads h
  have hbooked := RunThreads.booked_of_exec hks
  refine ⟨fun houtside => ?_, fun pid thread ht hne => ⟨hreading pid thread ht hne,
    hstalled.once pid⟩⟩
  · -- the thread of the level in the first call of `run`
    have hcaller := hbooked.caller
    rw [RunThreads.At, houtside] at hcaller
    obtain ⟨-, hlength, -, hgone⟩ := hcaller
    have hpid : level < s.threads.threads.length := by
      rw [hlength]
      exact hlevel.trans_le (Nat.le_mul_of_pos_left cnNum hrun)
    have ht := List.getElem?_eq_getElem hpid
    obtain ⟨-, hthread⟩ := hbooked.thread level _ ht
    have hbyte : level < 2 ^ 8 := (hlevel.trans_le hcount).trans (by decide)
    rw [Nat.mod_eq_of_lt hlevel, Nat.mod_eq_of_lt hbyte] at hthread
    have hexited := hgone level _ ht
    rw [hreading level _ ht (by rwa [hthread])] at hexited
    cases hexited

/-- A text of one letter. -/
def oneLetter : CString where
  mem i := if i = 0 then 97 else 0
  strlen := 1
  terminated := rfl
  nonzero := by decide

def oneLetterFile : KernelFile := ⟨oneLetter, oneLetter, [true]⟩

def noHost : Host := ⟨fun _ => 0, fun _ => []⟩

/-- A level with one output of four bytes. -/
def oneOutput : LevelRun := ⟨[], 0, 1, [⟨0, 4, some 0⟩]⟩

/-- A call of `init` that is answered. -/
def answeredSetup : List ElasticStep :=
  [.setup 0 clearStack, .session 0 .serve, .session 0 .reply, .session 0 .reply,
    .session 0 (.recv kMsgMaxSize)]

/-- The calls of `init`, those of `run`, and all that the node does for the read. -/
def oneOutputRun : List ElasticStep :=
  answeredSetup ++ answeredSetup ++ answeredSetup ++ answeredSetup ++
    [.setup 0 clearStack, .session 0 .serve, .session 0 .reply, .thread .call, .send clearStack,
      .session 0 .serve, .session 0 .reply, .session 0 .exec, .thread .create, .read 0 clearStack,
      .session 0 .serve, .session 0 .wait, .session 0 .exec, .session 0 .reply, .session 0 .reply,
      .session 0 .reply]

theorem run_never_returns_oneOutput : ∃ s,
    (elasticRun 1 fun _ => oneOutput.plan oneLetterFile noHost [(0, 0, 0)]).exec .init
      oneOutputRun = some s ∧ s.threads.pc ≠ .outside ∧ (s.session 0).wire .main ≠ [] := by
  have hrun : ((elasticRun 1 fun _ => oneOutput.plan oneLetterFile noHost [(0, 0, 0)]).exec .init
      oneOutputRun).map (fun s => (s.threads.runs, ((s.session 0).wire .main).length)) =
        some (1, 68) := by decide +kernel
  obtain ⟨s, hs, hvalues⟩ := Option.map_eq_some_iff.1 hrun
  obtain ⟨hruns, hwire⟩ := Prod.mk.inj hvalues
  have hframed : ∀ level : ℕ, ∀ c ∈ (oneOutput.plan oneLetterFile noHost [(0, 0, 0)]).calls,
      c.Framed := fun _ => by decide
  refine ⟨s, hs, (run_never_returns hs hframed (by decide) one_pos (by decide)
    (hruns ▸ one_pos)).1, fun hnil => ?_⟩
  rw [hnil] at hwire
  cases hwire

end ElasticClient

end ElasticFramework
