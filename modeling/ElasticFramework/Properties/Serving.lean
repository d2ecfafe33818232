import ElasticFramework.Framework.Deferred
import ElasticFramework.Properties.Documented
import ElasticFramework.Properties.OneDevice
import ElasticFramework.Properties.Owed
import ElasticFramework.Properties.SessionNames

/-!
# Serving one session among others

`Serves` says of one session that it is served as one by itself, before its queue is empty: there
are objects `d`, one session's, which the context has under the session's handles, and from which
the commands the queue is owed lead to the same end as all requests from the start.  A handler that
creates something does so to `d` ahead of these commands (`Serves.create`); one that pushes adds to
them (`Serves.push`); a worker performs the first (`Serves.execute`).

That OpenCL does what is documented is of use only where a call is valid.  This comes from what the
session asks for: what can be carried out when it is asked for can be when it is put off, and then
also in the context (`Serves.first`).  What other sessions do is elsewhere, as long as no two
objects have one handle.  And the command a worker executes is one of the session's whose queue it
is on (`owner_of_exec`).
-/

namespace ElasticFramework

variable {K W T : Type*} [Arith K] [DecidableEq W] [DecidableEq T] {cl : OpenCL W} {G : Growth}
  {s s' : NodeMemory K T cl} {ls : List (MemoryStep K W T)} {l : MemoryStep K W T}

/-! ## What a step does -/

/-- The moves of the node with its memory. -/
inductive Moves (cl : OpenCL W) (G : Growth) (s : NodeMemory K T cl) :
    MemoryStep K W T → NodeMemory K T cl → Prop
  | create {t : T} {a : Asked} {c c' : Creation} {new : ℕ} {context : cl.Context}
      (hc : a.request.creation a.uninitialized = some c)
      (hresolve : (s.vectors t).resolve c = some c')
      (hcl : cl.create s.context c' = some (new, context)) :
      Moves cl G s (.handle t a)
        { s with
          context := context
          vectors := Function.update s.vectors t ((s.vectors t).pushNew G new c) }
  | push {t : T} {a : Asked} {c : DeviceCall} {work : Work} {base : State K W T}
      (hnone : a.request.creation a.uninitialized = none) (hc : a.request.deviceCall = some c)
      (hwork : (s.vectors t).command c = some work)
      (hbase : computeNode.step s.base (a.request.label t) = some base) :
      Moves cl G s (.handle t a)
        { s with base := base, work := Function.update s.work s.base.nextPtr (some (t, work)) }
  | nothing {t : T} {a : Asked} (hnone : a.request.creation a.uninitialized = none)
      (hc : a.request.deviceCall = none) : Moves cl G s (.handle t a) s
  | execute {w : W} {usedTime : K} {q : ℕ} {comm : Command K} {t : T} {work : Work}
      {c : DeviceCall} {found : List (List UInt8)} {context : cl.Context} {base : State K W T}
      (hpc : s.base.worker w = .executing q comm) (hwork : s.work comm.ptr = some (t, work))
      (hc : (s.vectors t).call work = some c) (hcl : cl.exec s.context w c = some (found, context))
      (hbase : computeNode.step s.base (.endExec w usedTime) = some base) :
      Moves cl G s (.execute w usedTime) { s with base := base, context := context }
  | other {m : Label K W T} {base : State K W T} (hm : m.replaced = false)
      (hbase : computeNode.step s.base m = some base) :
      Moves cl G s (.other m) { s with base := base }

omit [Arith K] [DecidableEq W] [DecidableEq T] in
/-- The command of a worker, and what it asks of OpenCL. -/
lemma running_inv {w : W} {t : T} {c : DeviceCall} (h : s.running w = some (t, c)) :
    ∃ q comm work, s.base.worker w = .executing q comm ∧ s.work comm.ptr = some (t, work) ∧
      (s.vectors t).call work = some c := by
  unfold NodeMemory.running at h
  split at h
  · next q comm hpc =>
      obtain ⟨⟨t', work⟩, hwork, h⟩ := Option.bind_eq_some_iff.1 h
      obtain ⟨c', hc, heq⟩ := Option.map_eq_some_iff.1 h
      cases heq
      exact ⟨q, comm, work, hpc, hwork, hc⟩
  · cases h

lemma moves_of_step (h : (nodeMemory cl G).step s l = some s') : Moves cl G s l s' := by
  cases l with
  | handle t a =>
      change s.handle G t a = some s' at h
      unfold NodeMemory.handle at h
      split at h
      · split at h
        · next c _ hc =>
            obtain ⟨c', hresolve, h⟩ := Option.bind_eq_some_iff.1 h
            obtain ⟨⟨new, context⟩, hcl, rfl⟩ := Option.map_eq_some_iff.1 h
            exact .create hc hresolve hcl
        · next c hnone hc =>
            obtain ⟨work, hwork, h⟩ := Option.bind_eq_some_iff.1 h
            obtain ⟨base, hbase, rfl⟩ := Option.map_eq_some_iff.1 h
            exact .push hnone hc hwork hbase
        · next hnone hc =>
            cases h
            exact .nothing hnone hc
      · cases h
  | execute w usedTime =>
      obtain ⟨⟨t, c⟩, hrunning, h⟩ := Option.bind_eq_some_iff.1 h
      obtain ⟨⟨found, context⟩, hcl, h⟩ := Option.bind_eq_some_iff.1 h
      obtain ⟨base, hbase, rfl⟩ := Option.map_eq_some_iff.1 h
      obtain ⟨q, comm, work, hpc, hwork, hc⟩ := running_inv hrunning
      exact .execute hpc hwork hc hcl hbase
  | other m =>
      change (if m.replaced then none else _) = _ at h
      split at h
      · cases h
      · next hm =>
          obtain ⟨base, hbase, rfl⟩ := Option.map_eq_some_iff.1 h
          exact .other (by simpa using hm) hbase

/-! ## The threads -/

/-- The move of the threads in a step. -/
def MemoryStep.labels : MemoryStep K W T → List (Label K W T)
  | .handle t a =>
    match a.request.creation a.uninitialized, a.request.deviceCall with
    | none, some _ => [a.request.label t]
    | _, _ => []
  | .execute w usedTime => [.endExec w usedTime]
  | .other m => [m]

/-- The moves of the threads in a run. -/
def threads (ls : List (MemoryStep K W T)) : List (Label K W T) := ls.flatMap MemoryStep.labels

omit [Arith K] [DecidableEq W] [DecidableEq T] in
lemma threads_snoc (ls : List (MemoryStep K W T)) (l : MemoryStep K W T) :
    threads (ls ++ [l]) = threads ls ++ l.labels := by
  simp [threads]

/-- A step is one move of the threads, or none. -/
lemma base_of_moves (h : Moves cl G s l s') :
    l.labels = [] ∧ s'.base = s.base ∨
      ∃ m, l.labels = [m] ∧ computeNode.step s.base m = some s'.base := by
  cases h with
  | create hc hresolve hcl => exact .inl ⟨by simp [MemoryStep.labels, hc], rfl⟩
  | push hnone hc hwork hbase =>
      exact .inr ⟨_, by simp only [MemoryStep.labels, hnone, hc], hbase⟩
  | nothing hnone hc => exact .inl ⟨by simp only [MemoryStep.labels, hnone, hc], rfl⟩
  | execute hpc hwork hc hcl hbase => exact .inr ⟨_, rfl, hbase⟩
  | other hm hbase => exact .inr ⟨_, rfl, hbase⟩

/-- The threads run as they do without their memory. -/
lemma exec_threads (h : (nodeMemory cl G).exec (NodeMemory.init cl) ls = some s) :
    computeNode.exec State.init (threads ls) = some s.base := by
  refine (nodeMemory cl G).exec_induction
    (P := fun ls s => computeNode.exec State.init (threads ls) = some s.base) rfl ?_ h
  intro ls s l s' _ ih hl
  rw [threads_snoc]
  rcases base_of_moves (moves_of_step hl) with ⟨hnone, hbase⟩ | ⟨m, hm, hbase⟩
  · rw [hnone, List.append_nil, ih, hbase]
  · rw [hm]
    exact computeNode.exec_snoc_iff.2 ⟨s.base, ih, hbase⟩

/-! ## Whose a command is -/

/-- The move of a handler that pushes. -/
lemma label_push {b b' : State K W T} {t : T} {r : Request}
    (h : computeNode.step b (r.label t) = some b') :
    ∃ q, (b.session t).queue = some q ∧ b.pushes (r.label t) = [(q, b.nextPtr)] ∧
      b.ends (r.label t) = [] ∧ ∀ t', (b'.session t').queue = (b.session t').queue := by
  unfold Request.label at h ⊢
  split
  · next hfinish =>
      rw [if_pos hfinish] at h
      cases step_inv h with
      | @finish _ v q hpc =>
          have hq : (b.session t).queue = some q := by rw [hpc, SessionPc.queue]
          refine ⟨q, hq, by simp [State.pushes, hq], rfl, fun t' => ?_⟩
          have hkeep : (SessionPc.finishing v q b.nextPtr).queue = (b.session t).queue := by
            rw [hq, SessionPc.queue]
          exact apply_update_eq (f := SessionPc.queue) hkeep t'
  · next hfinish =>
      rw [if_neg hfinish] at h
      cases step_inv h with
      | @push _ kind v q hpc hkind =>
          have hq : (b.session t).queue = some q := by rw [hpc, SessionPc.queue]
          exact ⟨q, hq, by simp [State.pushes, hq], rfl, fun _ => rfl⟩

omit [Arith K] [DecidableEq W] [DecidableEq T] in
/-- Only `HandlerFinish` waits for what it pushes. -/
lemma eq_finish_of_label {t t' : T} {r : Request}
    (h : (r.label t : Label K W T) = .finish t') : t = t' ∧ ∃ queueId, r = .finish queueId := by
  unfold Request.label at h
  split at h
  · next hkind =>
      cases h
      cases r with
      | finish queueId => exact ⟨rfl, queueId, rfl⟩
      | _ => cases hkind
  · cases h

omit [Arith K] [DecidableEq W] [DecidableEq T] in
/-- A move that is not given another meaning neither pushes nor ends a command. -/
lemma quiet_of_not_replaced {m : Label K W T} (hm : m.replaced = false) (b : State K W T) :
    b.pushes m = [] ∧ b.ends m = [] := by
  cases m with
  | push | finish | endExec => cases hm
  | _ => exact ⟨rfl, rfl⟩

lemma session_endExec {b b' : State K W T} {w : W} {usedTime : K}
    (h : computeNode.step b (.endExec w usedTime) = some b') : b'.session = b.session := by
  have hstep : Step b (.endExec w usedTime) b' := step_inv h
  cases hstep
  rfl

/-- A command that a queue is owed is of the session with that queue. -/
lemma owner_of_exec (h : (nodeMemory cl G).exec (NodeMemory.init cl) ls = some s) :
    ∀ q, ∀ p ∈ owedOn (threads ls) q,
      ∃ t work, s.work p = some (t, work) ∧ (s.base.session t).queue = some q := by
  refine (nodeMemory cl G).exec_induction (P := fun ls s => ∀ q, ∀ p ∈ owedOn (threads ls) q,
    ∃ t work, s.work p = some (t, work) ∧ (s.base.session t).queue = some q) ?_ ?_ h
  · intro q p hp
    cases hp
  · intro ls s l s' hs ih hl q p hp
    have hbase := exec_threads hs
    cases moves_of_step hl with
    | create hc hresolve hcl =>
        rw [threads_snoc, MemoryStep.labels, hc, List.append_nil] at hp
        exact ih q p hp
    | nothing hnone hc =>
        rw [threads_snoc, MemoryStep.labels, hnone, hc, List.append_nil] at hp
        exact ih q p hp
    | @push t a c work base hnone hc hwork hpush =>
        obtain ⟨q', hq', hpushes, hends, hsession⟩ := label_push hpush
        rw [threads_snoc, MemoryStep.labels, hnone, hc, owedOn_push hbase hpushes hends] at hp
        rcases List.mem_append.1 hp with hold | hnew
        · obtain ⟨t', work', hwork', hqueue⟩ := ih q p hold
          have hne : p ≠ s.base.nextPtr := (lt_nextPtr_of_owed hbase hold).ne
          exact ⟨t', work', (Function.update_of_ne hne _ _).trans hwork', by rw [hsession, hqueue]⟩
        · split at hnew
          · next hqq =>
              rw [List.mem_singleton.1 hnew]
              exact ⟨t, work, Function.update_self _ _ _, by rw [hsession, hq', hqq]⟩
          · cases hnew
    | @execute w usedTime q' comm t work c found context base hpc hwork hc hcl hend =>
        have hends : s.base.ends (.endExec w usedTime) = [(q', comm.ptr)] := by
          rw [State.ends, hpc]
        have hold : p ∈ owedOn (threads ls) q := by
          rw [owedOn_end hbase hend rfl hends q]
          rw [threads_snoc] at hp
          exact List.mem_append_right _ hp
        obtain ⟨t', work', hwork', hqueue⟩ := ih q p hold
        exact ⟨t', work', hwork', queue_step hbase hend hqueue (List.ne_nil_of_mem hold)⟩
    | @other m base hm hother =>
        obtain ⟨hpushes, hends⟩ := quiet_of_not_replaced hm s.base
        rw [threads_snoc, MemoryStep.labels, owedOn_quiet hbase hpushes hends] at hp
        obtain ⟨t', work', hwork', hqueue⟩ := ih q p hp
        exact ⟨t', work', hwork', queue_step hbase hother hqueue (List.ne_nil_of_mem hp)⟩

/-- `Exec` can return at any time. -/
lemma step_endExec {b : State K W T} {w : W} {q : ℕ} {comm : Command K}
    (hpc : b.worker w = .executing q comm) (usedTime : K) :
    computeNode.step b (.endExec w usedTime) = some (b.goto w (.executed q comm usedTime)) :=
  Step.step_eq (.endExec hpc)

/-- The command a worker executes is the first that its session is owed. -/
lemma owed_of_executing (h : (nodeMemory cl G).exec (NodeMemory.init cl) ls = some s) {w : W}
    {q : ℕ} {comm : Command K} {t : T} {work : Work} (hpc : s.base.worker w = .executing q comm)
    (hp : s.work comm.ptr = some (t, work)) (usedTime : K) :
    (s.base.session t).queue = some q ∧
      ∃ rest, owedTo (threads ls) s.base t = comm.ptr :: rest := by
  have hends : s.base.ends (.endExec w usedTime) = [(q, comm.ptr)] := by rw [State.ends, hpc]
  have howed := owedOn_end (exec_threads h) (step_endExec hpc usedTime) rfl hends q
  rw [if_pos rfl, List.singleton_append] at howed
  have hmem : comm.ptr ∈ owedOn (threads ls) q := howed ▸ List.mem_cons_self
  obtain ⟨t', work', hwork', hqueue⟩ := owner_of_exec h q comm.ptr hmem
  cases hp.symm.trans hwork'
  exact ⟨hqueue, _, (owedTo_eq hqueue).trans howed⟩

/-! ## One device -/

/-- Every session is bound to the device. -/
def BoundTo (dev : W) (ls : List (MemoryStep K W T)) : Prop :=
  ∀ t d, MemoryStep.other (.bindDev t d) ∈ ls → d = dev

omit [Arith K] [DecidableEq W] [DecidableEq T] in
lemma BoundTo.of_append {dev : W} {ms : List (MemoryStep K W T)} (h : BoundTo dev (ls ++ ms)) :
    BoundTo dev ls :=
  fun t d hmem => h t d (List.mem_append_left _ hmem)

omit [Arith K] [DecidableEq W] [DecidableEq T] in
/-- Only `Run` binds a queue. -/
lemma mem_of_bindDev {t : T} {d : W} (h : (.bindDev t d : Label K W T) ∈ threads ls) :
    MemoryStep.other (.bindDev t d) ∈ ls := by
  obtain ⟨l, hl, hlabel⟩ := List.mem_flatMap.1 h
  cases l with
  | handle t' a =>
      rw [MemoryStep.labels] at hlabel
      split at hlabel
      · rw [List.mem_singleton, Request.label] at hlabel
        split at hlabel <;> cases hlabel
      · cases hlabel
  | execute w usedTime => cases List.mem_singleton.1 hlabel
  | other m =>
      obtain rfl := List.mem_singleton.1 hlabel
      exact hl

/-- It is the device's worker that executes. -/
lemma device_of_executing {dev : W} (h : (nodeMemory cl G).exec (NodeMemory.init cl) ls = some s)
    (hbound : BoundTo dev ls) {w : W} {q : ℕ} {comm : Command K}
    (hpc : s.base.worker w = .executing q comm) : w = dev :=
  (devoted_of_exec (exec_threads h) fun t d hmem => hbound t d (mem_of_bindDev hmem)).eq_of_queue
    hpc rfl

/-! ## A session by itself -/

section Reference

variable {kernels : Kernels W} {dev : W} {a p : Asked} {c : Creation} {call : DeviceCall}
  {x x' : SessionObjects}

/-- There are only the objects that are counted. -/
def SessionObjects.Tidy (x : SessionObjects) : Prop :=
  ∀ kind i, x.objects.Has kind i → i < x.count kind

omit [DecidableEq W] in
lemma serve_creation (h : a.request.creation a.uninitialized = some c) :
    x.serve kernels dev a = x.create c := by
  rw [SessionObjects.serve, h]

omit [DecidableEq W] in
lemma serve_call (hnone : a.request.creation a.uninitialized = none)
    (h : a.request.deviceCall = some call) : x.serve kernels dev a = x.exec kernels dev call := by
  rw [SessionObjects.serve, hnone, h]

omit [DecidableEq W] in
lemma serve_nothing (hnone : a.request.creation a.uninitialized = none)
    (h : a.request.deviceCall = none) : x.serve kernels dev a = some x := by
  rw [SessionObjects.serve, hnone, h]

lemma reads_call (h : a.request.deviceCall = some call) : x.reads a = x.objects.reads call := by
  rw [SessionObjects.reads, h, Option.map_some, Option.getD_some]

/-- A request that is not for a command reads nothing. -/
lemma reads_eq_nil (h : a.request.deviceCall = none) : x.reads a = [] := by
  rw [SessionObjects.reads, h, Option.map_none, Option.getD_none]

lemma deviceCall_eq_none {r : Request} {uninitialized : List UInt8}
    (h : r.creation uninitialized = some c) : r.deviceCall = none := by
  cases r with
  | createProgramWithSource | buildProgram | createKernel | createBuffer => rfl
  | _ => cases h

namespace SessionObjects.Tidy

/-- A new object has a position of its own. -/
lemma new (hx : x.Tidy) {kind : ObjectKind} (hkind : c.object = some kind) :
    ¬ x.objects.Has kind (x.position c) := by
  intro hhas
  have hlt := hx kind _ hhas
  rw [position, hkind] at hlt
  exact lt_irrefl _ hlt

omit [DecidableEq W] in
/-- A call makes no objects. -/
lemma exec (hx : x.Tidy) (h : x.exec kernels dev call = some x') : x'.Tidy := by
  obtain ⟨S, hS, rfl⟩ := Option.map_eq_some_iff.1 h
  exact fun kind i hi => hx kind i ((CLObjects.exec_follows hS).has kind i hi)

/-- A creation makes one. -/
lemma create (hx : x.Tidy) {S : CLObjects}
    (h : ∀ kind i, S.Has kind i →
      x.objects.Has kind i ∨ c.object = some kind ∧ i = x.position c) :
    SessionObjects.Tidy { objects := S, count := x.grown c } := by
  intro kind i hi
  change i < x.count kind + if c.object = some kind then 1 else 0
  rcases h kind i hi with hold | ⟨hkind, rfl⟩
  · exact Nat.lt_add_right _ (hx kind i hold)
  · rw [position, hkind, if_pos rfl]
    exact Nat.lt_succ_self _

end SessionObjects.Tidy

omit [DecidableEq W] in
/-- What waits is a call. -/
lemma tidy_serve (hnone : p.request.creation p.uninitialized = none)
    (hcall : p.request.deviceCall = some call) (hx : x.Tidy)
    (h : (immediate kernels dev).step x p = some x') : x'.Tidy :=
  hx.exec ((serve_call hnone hcall).symm.trans h)

omit [DecidableEq W] in
/-- A creation may go ahead of a call that was asked for before. -/
lemma early_creation (ha : a.request.creation a.uninitialized = some c)
    (hnone : p.request.creation p.uninitialized = none)
    (hcall : p.request.deviceCall = some call) :
    (immediate kernels dev).Early SessionObjects.reads SessionObjects.Tidy a p where
  comm s t u hs ht hu := by
    obtain ⟨S, hS, rfl⟩ := Option.map_eq_some_iff.1 ((serve_call hnone hcall).symm.trans ht)
    obtain ⟨U, hU, rfl⟩ := Option.map_eq_some_iff.1 ((serve_creation ha).symm.trans hu)
    obtain ⟨S', hS', hcall'⟩ := CLObjects.create_ahead (fun kind hkind => hs.new hkind) hS hU
    exact ⟨{ objects := S', count := s.grown c },
      (serve_creation ha).trans (Option.map_eq_some_iff.2 ⟨S', hS', rfl⟩),
      (serve_call hnone hcall).trans (Option.map_eq_some_iff.2 ⟨U, hcall', rfl⟩)⟩
  emits s s' t hs hs' ht := by
    obtain ⟨S, hS, rfl⟩ := Option.map_eq_some_iff.1 ((serve_call hnone hcall).symm.trans ht)
    obtain ⟨S', hS', rfl⟩ := Option.map_eq_some_iff.1 ((serve_creation ha).symm.trans hs')
    have hreads := (CLObjects.create_holds (fun kind hkind => hs.new hkind) hS').reads hS
    rw [DeviceCall.rename_same] at hreads
    rw [reads_call hcall, reads_call hcall, hreads]

omit [DecidableEq W] in
/-- A request that does nothing may be done at any time. -/
lemma early_nothing (ha : a.request.creation a.uninitialized = none)
    (hc : a.request.deviceCall = none) :
    (immediate kernels dev).Early SessionObjects.reads (fun _ => True) a p where
  comm s t u _ ht hu := by
    have heq : some t = some u := (serve_nothing ha hc).symm.trans hu
    cases heq
    exact ⟨s, serve_nothing ha hc, ht⟩
  emits s s' t _ hs' _ := by
    have heq : some s = some s' := (serve_nothing ha hc).symm.trans hs'
    cases heq
    rfl

end Reference

/-! ## The requests of one session -/

/-- A request and the address of the command that waits to carry it out. -/
def Waits (f : Naming) (s : NodeMemory K T cl) (t : T) (a : Asked) (p : ℕ) : Prop :=
  ∃ c work, a.request.creation a.uninitialized = none ∧ a.request.deviceCall = some c ∧
    work.IsFor f c ∧ s.work p = some (t, work)

/-- With `d` for its objects and `pending` for the requests its queue is owed, each with the address
of its command, a session that has asked for `asked` is served as one by itself. -/
structure Serves (kernels : Kernels W) (dev : W) (objects : cl.Context → CLObjects) (f : Naming)
    (s : NodeMemory K T cl) (t : T) (asked : List Asked) (said : List (List UInt8)) (owed : List ℕ)
    (d : SessionObjects) (pending : List (Asked × ℕ)) : Prop where
  owes : ∃ r, (immediate kernels dev).Owes SessionObjects.reads .init asked said d
    (pending.map Prod.fst) r
  tidy : d.Tidy
  count : d.count = (s.vectors t).count
  image : f.Image d.objects (objects s.context)
  waits : ∀ x ∈ pending, Waits f s t x.1 x.2
  addresses : pending.map Prod.snd = owed

namespace Serves

variable {kernels : Kernels W} {dev : W} {objects : cl.Context → CLObjects} {f : Naming} {t : T}
  {a : Asked} {asked : List Asked} {said : List (List UInt8)} {owed : List ℕ} {d : SessionObjects}
  {pending : List (Asked × ℕ)} {c c' : Creation} {call : DeviceCall}

omit [Arith K] [DecidableEq W] [DecidableEq T]

/-- The session is not concerned. -/
lemma frame (h : Serves kernels dev objects f s t asked said owed d pending)
    (himage : f.Image d.objects (objects s'.context)) (hvectors : s'.vectors t = s.vectors t)
    (hwork : ∀ p ∈ owed, s'.work p = s.work p) :
    Serves kernels dev objects f s' t asked said owed d pending := by
  refine { h with count := by rw [hvectors, h.count], image := himage, waits := fun x hx => ?_ }
  obtain ⟨c, work, hnone, hc, hfor, hp⟩ := h.waits x hx
  have hmem : x.2 ∈ owed := h.addresses ▸ List.mem_map_of_mem hx
  exact ⟨c, work, hnone, hc, hfor, (hwork x.2 hmem).trans hp⟩

/-- What holds of all requests that wait. -/
lemma of_pending (h : Serves kernels dev objects f s t asked said owed d pending)
    {P : Asked → Prop} (hP : ∀ a p, Waits f s t a p → P a) : ∀ a ∈ pending.map Prod.fst, P a := by
  intro a ha
  obtain ⟨x, hx, rfl⟩ := List.mem_map.1 ha
  exact hP x.1 x.2 (h.waits x hx)

/-- What comes of one more request, if it can be carried out. -/
lemma next {r : SessionObjects}
    (howes : (immediate kernels dev).Owes SessionObjects.reads .init asked said d
      (pending.map Prod.fst) r)
    (hvalid : ((immediate kernels dev).exec .init (asked ++ [a])).isSome) :
    ∃ r', (immediate kernels dev).step r a = some r' := by
  obtain ⟨r', hr'⟩ := Option.isSome_iff_exists.1 hvalid
  obtain ⟨r₁, hr₁, hstep⟩ := (immediate kernels dev).exec_snoc_iff.1 hr'
  cases howes.meant.symm.trans hr₁
  exact ⟨r', hstep⟩

/-- A handler has nothing to do. -/
lemma nothing (h : Serves kernels dev objects f s t asked said owed d pending)
    (hnone : a.request.creation a.uninitialized = none) (hc : a.request.deviceCall = none) :
    Serves kernels dev objects f s t (asked ++ [a]) said owed d pending := by
  obtain ⟨r, howes⟩ := h.owes
  obtain ⟨d', hd', howes'⟩ := howes.atOnce (I := fun _ => True) (fun _ _ _ _ _ _ => trivial)
    (fun _ _ => early_nothing hnone hc) (fun _ => reads_eq_nil hc) trivial (serve_nothing hnone hc)
  cases (serve_nothing hnone hc).symm.trans hd'
  exact { h with owes := ⟨_, howes'⟩ }

/-- A handler pushes a command. -/
lemma push {work : Work} {ptr : ℕ}
    (h : Serves kernels dev objects f s t asked said owed d pending) (hf : f.Names (s.vectors t))
    (hvalid : ((immediate kernels dev).exec .init (asked ++ [a])).isSome)
    (hnone : a.request.creation a.uninitialized = none) (hc : a.request.deviceCall = some call)
    (hcommand : (s.vectors t).command call = some work) (hfresh : ptr ∉ owed)
    (hcontext : s'.context = s.context) (hvectors : s'.vectors = s.vectors)
    (hwork : s'.work = Function.update s.work ptr (some (t, work))) :
    Serves kernels dev objects f s' t (asked ++ [a]) said (owed ++ [ptr]) d
      (pending ++ [(a, ptr)]) := by
  obtain ⟨r, howes⟩ := h.owes
  obtain ⟨r', hr'⟩ := next howes hvalid
  have hsame : Serves kernels dev objects f s' t asked said owed d pending := by
    refine h.frame (hcontext ▸ h.image) (by rw [hvectors]) fun p hp => ?_
    have hne : p ≠ ptr := fun heq => hfresh (heq ▸ hp)
    rw [hwork, Function.update_of_ne hne]
  refine { hsame with owes := ⟨r', ?_⟩, waits := fun x hx => ?_, addresses := ?_ }
  · rw [List.map_append]
    exact howes.defer hr'
  · rcases List.mem_append.1 hx with hold | hnew
    · exact hsame.waits x hold
    · rw [List.mem_singleton.1 hnew]
      exact ⟨call, work, hnone, hc, hf.isFor hcommand, by rw [hwork, Function.update_self]⟩
  · rw [List.map_append, h.addresses]
    rfl

/-- A creation can be carried out ahead of the commands the queue is owed. -/
lemma ahead (h : Serves kernels dev objects f s t asked said owed d pending)
    (hvalid : ((immediate kernels dev).exec .init (asked ++ [a])).isSome)
    (hc : a.request.creation a.uninitialized = some c) :
    ∃ D r, d.objects.create (d.position c) c = some D ∧
      (immediate kernels dev).Owes SessionObjects.reads .init (asked ++ [a]) said
        { objects := D, count := d.grown c } (pending.map Prod.fst) r := by
  obtain ⟨r, howes⟩ := h.owes
  obtain ⟨r', hr'⟩ := next howes hvalid
  have hwaits : ∀ p ∈ pending.map Prod.fst, ∃ call, p.request.creation p.uninitialized = none ∧
      p.request.deviceCall = some call :=
    h.of_pending fun p _ ⟨call, _, hnone, hcall, _⟩ => ⟨call, hnone, hcall⟩
  obtain ⟨d', hd', howes'⟩ := howes.atOnce (I := SessionObjects.Tidy)
    (fun p hp x x' hx hstep => by
      obtain ⟨call, hnone, hcall⟩ := hwaits p hp
      exact tidy_serve hnone hcall hx hstep)
    (fun p hp => by
      obtain ⟨call, hnone, hcall⟩ := hwaits p hp
      exact early_creation hc hnone hcall)
    (fun _ => reads_eq_nil (deviceCall_eq_none hc)) h.tidy hr'
  obtain ⟨D, hD, rfl⟩ := Option.map_eq_some_iff.1 ((serve_creation hc).symm.trans hd')
  exact ⟨D, r', hD, howes'⟩

/-- A handler creates an object. -/
lemma create {new : ℕ} (hdoc : cl.Documented kernels objects)
    (h : Serves kernels dev objects f s t asked said owed d pending) (hapart : f.Apart d.objects)
    (hf : f.Names (s'.vectors t))
    (hvalid : ((immediate kernels dev).exec .init (asked ++ [a])).isSome)
    (hc : a.request.creation a.uninitialized = some c)
    (hvectors : s'.vectors t = (s.vectors t).pushNew G new c)
    (hresolve : (s.vectors t).resolve c = some c')
    (hcl : cl.create s.context c' = some (new, s'.context)) (hwork : s'.work = s.work) :
    ∃ d', Serves kernels dev objects f s' t (asked ++ [a]) said owed d' pending ∧
      (∀ kind, c.object = some kind → ¬ (objects s.context).Has kind (f kind (d.position c))) ∧
      f.Gains d.objects (objects s.context) c (d.position c) d'.objects (objects s'.context) := by
  obtain ⟨D, r', hD, howes'⟩ := h.ahead hvalid hc
  -- the context has the new object too, under the handle that is now in the vector
  obtain rfl := (hf.of_pushNew hvectors).resolve_eq hresolve
  obtain ⟨S, hS⟩ := h.image.creates hD new
  obtain ⟨rfl, hnew⟩ := hdoc.create hS hcl
  have hhandle : ∀ kind, c.object = some kind → f kind (d.position c) = new := by
    intro kind hkind
    rw [SessionObjects.position, hkind, h.count]
    exact hf.new_handle hvectors hkind
  have hobject : ∀ kind, (c.rename f).object = c.object → c.object = some kind →
      ¬ (objects s.context).Has kind new :=
    fun kind hsame hkind => hnew kind (hsame.trans hkind)
  have hsame : (c.rename f).object = c.object := by cases c <;> rfl
  have hgains := Naming.create_image hapart h.image hD
    (fun kind hkind => ⟨hhandle kind hkind, hobject kind hsame hkind⟩) hS
  refine ⟨_, ⟨⟨r', howes'⟩, h.tidy.create hgains.has, ?_, hgains.image, fun x hx => ?_,
    h.addresses⟩, fun kind hkind => ?_, hgains⟩
  · funext kind
    change d.count kind + (if c.object = some kind then 1 else 0) = _
    rw [hvectors, Vectors.count_pushNew, h.count]
  · obtain ⟨call, work, hnone, hcall, hfor, hp⟩ := h.waits x hx
    exact ⟨call, work, hnone, hcall, hfor, by rw [hwork, hp]⟩
  · rw [hhandle kind hkind]
    exact hobject kind hsame hkind

/-- The first command can be executed.  In the context `S` it leads to, the session is served. -/
lemma first {work : Work} {call' : DeviceCall} {p : ℕ}
    (h : Serves kernels dev objects f s t asked said (p :: owed) d pending)
    (hapart : f.Apart d.objects) (hf : f.Names (s.vectors t)) (hp : s.work p = some (t, work))
    (hcall : (s.vectors t).call work = some call') :
    ∃ S d' pending', (objects s.context).exec kernels dev call' = some S ∧
      f.Follows d.objects (objects s.context) d'.objects S ∧
      ∀ {s' : NodeMemory K T cl}, objects s'.context = S → s'.vectors = s.vectors →
        s'.work = s.work → Serves kernels dev objects f s' t asked
          (said ++ (objects s.context).reads call') owed d' pending' := by
  obtain ⟨⟨a, q⟩, rest, rfl, rfl, haddresses⟩ := List.map_eq_cons_iff.1 h.addresses
  obtain ⟨call, work', hnone, hc, hfor, hp'⟩ := h.waits _ List.mem_cons_self
  cases hp.symm.trans hp'
  obtain rfl := hf.call_eq hfor hcall
  obtain ⟨r, howes⟩ := h.owes
  obtain ⟨d', hd', howes'⟩ := howes.perform
  have hexec := (serve_call hnone hc).symm.trans hd'
  obtain ⟨D, hD, rfl⟩ := Option.map_eq_some_iff.1 hexec
  obtain ⟨S, hS, hfollows⟩ := Naming.exec_image hapart h.image.toHolds hD
  refine ⟨S, _, rest, hS, hfollows, fun {s'} hs' hvectors hwork => ⟨⟨r, ?_⟩, h.tidy.exec hexec, ?_,
    hs' ▸ hfollows.image h.image, fun x hx => ?_, haddresses⟩⟩
  · rw [h.image.toHolds.reads hD, ← reads_call hc]
    exact howes'
  · rw [hvectors]
    exact h.count
  · obtain ⟨call, w, hrest⟩ := h.waits x (List.mem_cons_of_mem _ hx)
    exact ⟨call, w, by rw [hwork]; exact hrest⟩

/-- A worker executes the first command. -/
lemma execute {work : Work} {call' : DeviceCall} {p : ℕ} {found : List (List UInt8)}
    (hdoc : cl.Documented kernels objects)
    (h : Serves kernels dev objects f s t asked said (p :: owed) d pending)
    (hapart : f.Apart d.objects) (hf : f.Names (s.vectors t)) (hp : s.work p = some (t, work))
    (hcall : (s.vectors t).call work = some call')
    (hcl : cl.exec s.context dev call' = some (found, s'.context))
    (hvectors : s'.vectors = s.vectors) (hwork : s'.work = s.work) :
    ∃ d' pending', Serves kernels dev objects f s' t asked (said ++ found) owed d' pending' ∧
      f.Follows d.objects (objects s.context) d'.objects (objects s'.context) := by
  obtain ⟨S, d', pending', hS, hfollows, hserves⟩ := h.first hapart hf hp hcall
  obtain ⟨rfl, rfl⟩ := hdoc.exec hS hcl
  exact ⟨d', pending', hserves rfl hvectors hwork, hfollows⟩

/-- To finish the queue changes nothing. -/
lemma finish {p : ℕ} (h : Serves kernels dev objects f s t asked said (p :: owed) d pending)
    (hapart : f.Apart d.objects) (hf : f.Names (s.vectors t)) (hp : s.work p = some (t, .finish)) :
    ∃ d' pending', Serves kernels dev objects f s t asked said owed d' pending' := by
  obtain ⟨S, d', pending', hS, -, hserves⟩ := h.first hapart hf hp rfl
  have hsame : objects s.context = S := Option.some.inj hS
  refine ⟨d', pending', ?_⟩
  have hserves' := hserves hsame rfl rfl
  rwa [show (objects s.context).reads (.finish 0) = [] from rfl, List.append_nil] at hserves'

end Serves

end ElasticFramework
