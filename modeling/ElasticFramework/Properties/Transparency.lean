import ElasticFramework.Properties.Serving
import ElasticFramework.Properties.Tokens

/-!
# The node is transparent

A session's requests are spread over time: objects are created when they are asked for, everything
else waits in the queue, and between two commands of the session any number of others are executed
in the same context.  None of this shows.  Once the queue is empty, the session's objects are what
they would be had every request been carried out when it was made, on a node of its own
(`transparent`); so they are when `CommandFinish::Wait` returns (`finished`).  What its reads have
found at any time is the beginning of what they find there (`reads_in_order`), and what a command
asks of OpenCL is valid whatever others have done in between (`valid_calls`).

It follows that a session learns nothing of the others: in two runs in which it asks for the same,
it gets the same (`undisturbed`).

## What it takes

OpenCL does what is documented, which is about valid calls, and a handle may be given to a new
object when the old one has been released.  So one session that asks for what it has released may be
given the buffer of another, and the results take that no session does (`Valid`): what each asks for
can be carried out by itself.  They also take that all sessions are bound to one device, as `Run`
has it (`BoundTo`), since what a kernel does may depend on the device.  A run is over where OpenCL
fails, and where a command follows a pointer into a vector that has moved.
-/

namespace ElasticFramework

variable {K W T : Type*} [Arith K] [DecidableEq W] [DecidableEq T] {cl : OpenCL W} {G : Growth}
  {kernels : Kernels W} {dev : W} {objects : cl.Context → CLObjects}
  {s s' : NodeMemory K T cl} {ls : List (MemoryStep K W T)} {l : MemoryStep K W T}

/-! ## Runs -/

omit [Arith K] [DecidableEq W] in
lemma askedBy_append (t : T) (ls ms : List (MemoryStep K W T)) :
    askedBy t (ls ++ ms) = askedBy t ls ++ askedBy t ms := by
  rw [askedBy, List.filterMap_append, askedBy, askedBy]

omit [Arith K] [DecidableEq W] in
lemma askedBy_handle (t t' : T) (a : Asked) :
    askedBy t ([.handle t' a] : List (MemoryStep K W T)) = if t' = t then [a] else [] := by
  unfold askedBy
  split <;> simp [*]

lemma readBy_snoc (h : (nodeMemory cl G).exec (NodeMemory.init cl) ls = some s) (t : T)
    (l : MemoryStep K W T) :
    readBy cl G t (ls ++ [l]) = readBy cl G t ls ++ s.readsFor t l :=
  (nodeMemory cl G).trace_snoc _ l h

/-- What every session asks for can be carried out by itself. -/
def Valid (kernels : Kernels W) (dev : W) (ls : List (MemoryStep K W T)) : Prop :=
  ∀ t, ((immediate kernels dev).exec .init (askedBy t ls)).isSome

omit [Arith K] [DecidableEq W] in
lemma Valid.of_append {ms : List (MemoryStep K W T)} (h : Valid kernels dev (ls ++ ms)) :
    Valid kernels dev ls := by
  intro t
  obtain ⟨r, hr⟩ := Option.isSome_iff_exists.1 (h t)
  rw [askedBy_append] at hr
  obtain ⟨r', hr', -⟩ := (immediate kernels dev).exec_append_iff.1 hr
  exact Option.isSome_of_eq_some hr'

omit [Arith K] [DecidableEq W] in
/-- It includes the request of the last step. -/
lemma Valid.snoc {t : T} {a : Asked} (h : Valid kernels dev (ls ++ [.handle t a])) :
    ((immediate kernels dev).exec .init (askedBy t ls ++ [a])).isSome := by
  have hlast := h t
  rwa [askedBy_append, askedBy_handle, if_pos rfl] at hlast

/-! ## No handle twice -/

/-- No two objects, of one session or of two, have one handle. -/
def Distinct (f : T → Naming) (x : T → CLObjects) : Prop :=
  ∀ kind t t' i i', (x t).Has kind i → (x t').Has kind i' → f t kind i = f t' kind i' →
    t = t' ∧ i = i'

namespace Distinct

variable {f : T → Naming} {x : T → CLObjects} {t t' : T} {y : CLObjects}

omit [DecidableEq T] in
lemma apart (h : Distinct f x) (t : T) : (f t).Apart (x t) :=
  fun kind _ hi _ hj heq => (h kind t t _ _ hi hj heq).2

omit [DecidableEq T] in
lemma foreign (h : Distinct f x) (hne : t ≠ t') (kind : ObjectKind) (i : ℕ)
    (hi : (x t').Has kind i) : (f t).Foreign (x t) kind (f t' kind i) :=
  fun _ hj heq => hne (h kind t t' _ _ hj hi heq).1

/-- A session has objects that are no more than it had, but for new ones under handles that are no
object's. -/
lemma update (h : Distinct f x) (new : ObjectKind → ℕ → Prop)
    (hy : ∀ kind i, y.Has kind i → (x t).Has kind i ∨ new kind i)
    (hunique : ∀ kind i j, new kind i → new kind j → i = j)
    (hnew : ∀ kind i, new kind i → ∀ t' j, (x t').Has kind j → f t' kind j ≠ f t kind i) :
    Distinct f (Function.update x t y) := by
  have hhas : ∀ kind t' i, (Function.update x t y t').Has kind i →
      (x t').Has kind i ∨ t' = t ∧ new kind i := by
    intro kind t' i hi
    by_cases ht : t' = t
    · subst ht
      rw [Function.update_self] at hi
      exact (hy kind i hi).imp_right fun hi => ⟨rfl, hi⟩
    · rw [Function.update_of_ne ht] at hi
      exact .inl hi
  intro kind t₁ t₂ i j hi hj heq
  rcases hhas kind t₁ i hi with hold | ⟨rfl, hi'⟩
  · rcases hhas kind t₂ j hj with hold' | ⟨rfl, hj'⟩
    · exact h kind t₁ t₂ i j hold hold' heq
    · exact absurd heq (hnew kind j hj' t₁ i hold)
  · rcases hhas kind t₂ j hj with hold' | ⟨rfl, hj'⟩
    · exact absurd heq.symm (hnew kind i hi' t₂ j hold')
    · exact ⟨rfl, hunique kind i j hi' hj'⟩

end Distinct

/-! ## All sessions -/

/-- With `f` for their names and `d` for their objects, all sessions are served. -/
structure ServesAll (kernels : Kernels W) (dev : W) (objects : cl.Context → CLObjects) (G : Growth)
    (f : T → Naming) (ls : List (MemoryStep K W T)) (s : NodeMemory K T cl)
    (d : T → SessionObjects) : Prop where
  serves : ∀ t, ∃ pending, Serves kernels dev objects (f t) s t (askedBy t ls) (readBy cl G t ls)
    (owedTo (threads ls) s.base t) (d t) pending
  distinct : Distinct f fun t => (d t).objects

/-- Every session is served as one by itself. -/
def AllServed (kernels : Kernels W) (dev : W) (objects : cl.Context → CLObjects) (G : Growth)
    (ls : List (MemoryStep K W T)) (s : NodeMemory K T cl) : Prop :=
  ∀ f : T → Naming, (∀ t, (f t).Names (s.vectors t)) → ∃ d, ServesAll kernels dev objects G f ls s d

namespace ServesAll

variable {f : T → Naming} {d : T → SessionObjects} {t₀ : T} {a : Asked}

omit [Arith K] [DecidableEq W] in
/-- One session's objects are others, and all are distinct. -/
lemma distinct_update (d : T → SessionObjects) (t : T) (y : SessionObjects)
    (h : Distinct f (Function.update (fun t => (d t).objects) t y.objects)) :
    Distinct f fun t' => (Function.update d t y t').objects := by
  have heq : (fun t' => (Function.update d t y t').objects) =
      Function.update (fun t => (d t).objects) t y.objects :=
    Function.comp_update SessionObjects.objects d t y
  rwa [heq]

/-- What one session does is elsewhere for the others. -/
lemma other (h : ServesAll kernels dev objects G f ls s d) {t : T} (hne : t₀ ≠ t)
    (helsewhere : (f t₀).Elsewhere (d t₀).objects (objects s.context) (objects s'.context))
    (hvectors : s'.vectors t = s.vectors t) (hwork : s'.work = s.work) :
    ∃ pending, Serves kernels dev objects (f t) s' t (askedBy t ls) (readBy cl G t ls)
      (owedTo (threads ls) s.base t) (d t) pending := by
  obtain ⟨pending, hserves⟩ := h.serves t
  exact ⟨pending, hserves.frame (hserves.image.elsewhere helsewhere (h.distinct.foreign hne))
    hvectors fun _ _ => by rw [hwork]⟩

/-- A handler creates an object. -/
lemma create {c c' : Creation} {new : ℕ} (hdoc : cl.Documented kernels objects)
    (h : ServesAll kernels dev objects G f ls s d)
    (hs : (nodeMemory cl G).exec (NodeMemory.init cl) ls = some s)
    (hf : ∀ t, (f t).Names (s'.vectors t))
    (hvalid : ((immediate kernels dev).exec .init (askedBy t₀ ls ++ [a])).isSome)
    (hc : a.request.creation a.uninitialized = some c)
    (hresolve : (s.vectors t₀).resolve c = some c')
    (hcl : cl.create s.context c' = some (new, s'.context))
    (hvectors : s'.vectors = Function.update s.vectors t₀ ((s.vectors t₀).pushNew G new c))
    (hbase : s'.base = s.base) (hwork : s'.work = s.work) :
    ∃ d', ServesAll kernels dev objects G f (ls ++ [.handle t₀ a]) s' d' := by
  have hlabels : (MemoryStep.handle t₀ a : MemoryStep K W T).labels = [] := by
    simp only [MemoryStep.labels, hc]
  obtain ⟨pending, hserves⟩ := h.serves t₀
  obtain ⟨D, hD, hnew, hgains⟩ := hserves.create hdoc (h.distinct.apart t₀) (hf t₀) hvalid hc
    (by rw [hvectors, Function.update_self]) hresolve hcl hwork
  refine ⟨Function.update d t₀ D, fun t => ?_, distinct_update d t₀ D (h.distinct.update
    (fun kind i => c.object = some kind ∧ i = (d t₀).position c) hgains.has ?_ ?_)⟩
  · rw [threads_snoc, hlabels, List.append_nil, askedBy_append, askedBy_handle, readBy_snoc hs,
      hbase, show s.readsFor t (.handle t₀ a) = [] from rfl, List.append_nil]
    by_cases ht : t₀ = t
    · subst ht
      rw [if_pos rfl, Function.update_self]
      exact ⟨pending, hD⟩
    · rw [if_neg ht, List.append_nil, Function.update_of_ne (Ne.symm ht)]
      exact h.other ht hgains.elsewhere (by rw [hvectors, Function.update_of_ne (Ne.symm ht)]) hwork
  · rintro kind i j ⟨-, rfl⟩ ⟨-, rfl⟩
    rfl
  · rintro kind i ⟨hkind, rfl⟩ t j hj heq
    obtain ⟨_, hother⟩ := h.serves t
    exact hnew kind hkind (heq ▸ hother.image.has hj)

/-- A handler pushes a command. -/
lemma push {call : DeviceCall} {work : Work} (h : ServesAll kernels dev objects G f ls s d)
    (hs : (nodeMemory cl G).exec (NodeMemory.init cl) ls = some s)
    (hf : ∀ t, (f t).Names (s.vectors t))
    (hvalid : ((immediate kernels dev).exec .init (askedBy t₀ ls ++ [a])).isSome)
    (hnone : a.request.creation a.uninitialized = none) (hc : a.request.deviceCall = some call)
    (hcommand : (s.vectors t₀).command call = some work)
    (hpush : computeNode.step s.base (a.request.label t₀) = some s'.base)
    (hcontext : s'.context = s.context) (hvectors : s'.vectors = s.vectors)
    (hwork : s'.work = Function.update s.work s.base.nextPtr (some (t₀, work))) :
    ServesAll kernels dev objects G f (ls ++ [.handle t₀ a]) s' d := by
  refine ⟨fun t => ?_, h.distinct⟩
  have hbase := exec_threads hs
  obtain ⟨q, hq, hpushes, hends, hsession⟩ := label_push hpush
  have hlabels : (MemoryStep.handle t₀ a : MemoryStep K W T).labels = [a.request.label t₀] := by
    simp only [MemoryStep.labels, hnone, hc]
  have hfresh : s.base.nextPtr ∉ owedTo (threads ls) s.base t := fun hmem =>
    absurd (lt_nextPtr_of_owedTo hbase hmem) (lt_irrefl _)
  obtain ⟨pending, hserves⟩ := h.serves t
  rw [threads_snoc, hlabels, askedBy_append, askedBy_handle, readBy_snoc hs,
    owedTo_push hbase hq hpushes hends hsession, show s.readsFor t (.handle t₀ a) = [] from rfl,
    List.append_nil]
  by_cases ht : t₀ = t
  · subst ht
    rw [if_pos rfl, if_pos rfl]
    exact ⟨_, hserves.push (hf t₀) hvalid hnone hc hcommand hfresh hcontext hvectors hwork⟩
  · rw [if_neg ht, if_neg (Ne.symm ht), List.append_nil, List.append_nil]
    refine ⟨pending, hserves.frame (hcontext ▸ hserves.image) (by rw [hvectors]) fun p hp => ?_⟩
    have hne : p ≠ s.base.nextPtr := fun heq => hfresh (heq ▸ hp)
    rw [hwork, Function.update_of_ne hne]

/-- A handler has nothing to do. -/
lemma nothing (h : ServesAll kernels dev objects G f ls s d)
    (hs : (nodeMemory cl G).exec (NodeMemory.init cl) ls = some s)
    (hnone : a.request.creation a.uninitialized = none) (hc : a.request.deviceCall = none) :
    ServesAll kernels dev objects G f (ls ++ [.handle t₀ a]) s d := by
  refine ⟨fun t => ?_, h.distinct⟩
  have hlabels : (MemoryStep.handle t₀ a : MemoryStep K W T).labels = [] := by
    simp only [MemoryStep.labels, hnone, hc]
  obtain ⟨pending, hserves⟩ := h.serves t
  rw [threads_snoc, hlabels, List.append_nil, askedBy_append, askedBy_handle, readBy_snoc hs,
    show s.readsFor t (.handle t₀ a) = [] from rfl, List.append_nil]
  split
  · exact ⟨pending, hserves.nothing hnone hc⟩
  · rw [List.append_nil]
    exact ⟨pending, hserves⟩

/-- A worker has executed a command. -/
lemma execute {call : DeviceCall} {work : Work} {usedTime : K} {q : ℕ} {comm : Command K}
    {found : List (List UInt8)} (hdoc : cl.Documented kernels objects)
    (h : ServesAll kernels dev objects G f ls s d)
    (hs : (nodeMemory cl G).exec (NodeMemory.init cl) ls = some s)
    (hf : ∀ t, (f t).Names (s.vectors t)) (hpc : s.base.worker dev = .executing q comm)
    (hp : s.work comm.ptr = some (t₀, work)) (hcall : (s.vectors t₀).call work = some call)
    (hcl : cl.exec s.context dev call = some (found, s'.context))
    (hend : computeNode.step s.base (.endExec dev usedTime) = some s'.base)
    (hvectors : s'.vectors = s.vectors) (hwork : s'.work = s.work) :
    ∃ d', ServesAll kernels dev objects G f (ls ++ [.execute dev usedTime]) s' d' := by
  have hbase := exec_threads hs
  have hends : s.base.ends (.endExec dev usedTime) = [(q, comm.ptr)] := by rw [State.ends, hpc]
  have hq := (owed_of_executing hs hpc hp usedTime).1
  have howed := owedTo_end hbase hend hq rfl hends (session_endExec hend)
  have hreads : ∀ t, s.readsFor t (.execute dev usedTime) = if t₀ = t then found else [] := by
    intro t
    simp only [NodeMemory.readsFor, NodeMemory.running, hpc, hp, Option.bind_some, hcall,
      Option.map_some, hcl, Option.getD_some]
  obtain ⟨pending, hserves⟩ := h.serves t₀
  rw [howed t₀, if_pos rfl] at hserves
  obtain ⟨D, pending', hD, hfollows⟩ :=
    hserves.execute hdoc (h.distinct.apart t₀) (hf t₀) hp hcall hcl hvectors hwork
  refine ⟨Function.update d t₀ D, fun t => ?_, distinct_update d t₀ D (h.distinct.update
    (fun _ _ => False) (fun kind i hi => .inl (hfollows.has kind i hi)) (fun _ _ _ => False.elim)
    fun _ _ => False.elim)⟩
  rw [threads_snoc, askedBy_append, show askedBy t [.execute dev usedTime] = [] from rfl,
    List.append_nil, readBy_snoc hs, hreads]
  by_cases ht : t₀ = t
  · subst ht
    rw [if_pos rfl, Function.update_self]
    exact ⟨pending', hD⟩
  · have hsame := howed t
    rw [if_neg (Ne.symm ht), List.nil_append] at hsame
    rw [if_neg ht, List.append_nil, Function.update_of_ne (Ne.symm ht), MemoryStep.labels, ← hsame]
    exact h.other ht hfollows.elsewhere (by rw [hvectors]) hwork

/-- A thread moves otherwise. -/
lemma moved {m : Label K W T} {base : State K W T} (h : ServesAll kernels dev objects G f ls s d)
    (hs : (nodeMemory cl G).exec (NodeMemory.init cl) ls = some s) (hm : m.replaced = false)
    (hbase : computeNode.step s.base m = some base) :
    ServesAll kernels dev objects G f (ls ++ [.other m]) { s with base := base } d := by
  refine ⟨fun t => ?_, h.distinct⟩
  obtain ⟨hpushes, hends⟩ := quiet_of_not_replaced hm s.base
  obtain ⟨pending, hserves⟩ := h.serves t
  rw [threads_snoc, MemoryStep.labels, owedTo_quiet (exec_threads hs) hbase hpushes hends,
    askedBy_append, show askedBy t [.other m] = [] from rfl, List.append_nil, readBy_snoc hs,
    show s.readsFor t (.other m) = [] from rfl, List.append_nil]
  exact ⟨pending, hserves.frame hserves.image rfl fun _ _ => rfl⟩

/-- Before the first step there are no objects. -/
lemma init (f : T → Naming) :
    ServesAll kernels dev objects G f ([] : List (MemoryStep K W T)) (NodeMemory.init cl)
      fun _ => .init := by
  have hnone : ∀ kind i, ¬ SessionObjects.init.objects.Has kind i := by
    rintro (_ | _ | _) i hi <;> cases hi
  refine ⟨fun t => ⟨[], ⟨_, .init _⟩, fun kind i hi => absurd hi (hnone kind i), ?_, ?_, nofun,
    rfl⟩, fun kind _ _ i _ hi => absurd hi (hnone kind i)⟩
  · funext kind
    cases kind <;> rfl
  · exact ⟨⟨fun i hi => absurd hi (hnone _ i), fun i hi => absurd hi (hnone _ i)⟩,
      fun i hi => absurd hi (hnone _ i)⟩

end ServesAll

/-- **In every run.** -/
theorem allServed_of_exec (hdoc : cl.Documented kernels objects)
    (h : (nodeMemory cl G).exec (NodeMemory.init cl) ls = some s) (hbound : BoundTo dev ls)
    (hvalid : Valid kernels dev ls) : AllServed kernels dev objects G ls s := by
  refine (nodeMemory cl G).exec_induction (P := fun ls s => BoundTo dev ls →
    Valid kernels dev ls → AllServed kernels dev objects G ls s)
    (fun _ _ f _ => ⟨_, ServesAll.init f⟩) ?_ h hbound hvalid
  intro ls s l s' hs ih hl hbound hvalid f hf
  have hall := ih hbound.of_append hvalid.of_append
  cases moves_of_step hl with
  | @create t₀ a c c' new context hc hresolve hcl =>
      obtain ⟨d, hserved⟩ := hall f fun t => by
        by_cases ht : t = t₀
        · subst ht
          exact (hf t).of_pushNew (Function.update_self ..)
        · exact Function.update_of_ne ht ((s.vectors t₀).pushNew G new c) s.vectors ▸ hf t
      exact hserved.create hdoc hs hf hvalid.snoc hc hresolve hcl rfl rfl rfl
  | push hnone hc hwork hpush =>
      obtain ⟨d, hserved⟩ := hall f hf
      exact ⟨d, hserved.push hs hf hvalid.snoc hnone hc hwork hpush rfl rfl rfl⟩
  | nothing hnone hc =>
      obtain ⟨d, hserved⟩ := hall f hf
      exact ⟨d, hserved.nothing hs hnone hc⟩
  | execute hpc hwork hc hcl hend =>
      obtain ⟨d, hserved⟩ := hall f hf
      obtain rfl := device_of_executing hs hbound.of_append hpc
      exact hserved.execute hdoc hs hf hpc hwork hc hcl hend rfl rfl
  | other hm hbase =>
      obtain ⟨d, hserved⟩ := hall f hf
      exact ⟨d, hserved.moved hs hm hbase⟩

/-! ## Small runs -/

/-- Kernels that leave nothing. -/
def noKernels : Kernels Unit := fun _ _ _ _ _ => []

/-- A context for one device. -/
noncomputable abbrev oneDeviceCL : OpenCL Unit := plainCL noKernels () []

/-- A session creates a buffer of two bytes. -/
def newSession (t : Bool) : List (MemoryStep Ticks Unit Bool) :=
  [.other (.connect t 1), .other (.createQueue t), .other (.bindDev t ()),
    .handle t ⟨.createBuffer 0 2 none, [0, 0]⟩]

/-- It writes to the buffer, and reads what is there. -/
def writesAndReads (t : Bool) (data : List UInt8) : List (MemoryStep Ticks Unit Bool) :=
  [.handle t ⟨.enqueueWriteBuffer 0 0 2 0 data, []⟩, .handle t ⟨.enqueueReadBuffer 0 0 2 0, []⟩]

/-- The worker begins to execute a command. -/
def workerBegins : List (MemoryStep Ticks Unit Bool) :=
  [.other (.take ()), .other (.check ()), .other (.pick ()), .other (.beginExec ())]

/-- It is done with it. -/
def workerEnds : List (MemoryStep Ticks Unit Bool) :=
  [.execute () 1, .other (.account ()), .other (.pop ()), .other (.test ()),
    .other (.clearSkip ())]

def workerTurn : List (MemoryStep Ticks Unit Bool) := workerBegins ++ workerEnds

/-- Two sessions write to their buffers and read them. -/
def twoSessions : List (MemoryStep Ticks Unit Bool) :=
  newSession true ++ newSession false ++ writesAndReads true [7, 8] ++
    writesAndReads false [5, 6] ++ workerTurn ++ workerTurn ++ workerTurn ++ workerTurn

lemma twoSessions_valid : Valid noKernels () twoSessions := by
  rintro (_ | _) <;> rfl

omit [Arith K] [DecidableEq W] [DecidableEq T] in
/-- There is no other device. -/
lemma boundTo_unit (ls : List (MemoryStep K Unit T)) : BoundTo () ls := fun _ _ _ => rfl

/-! ## What a session gets -/

/-- A session's objects are in the context, under the handles of its vectors. -/
structure NodeMemory.Shows (objects : cl.Context → CLObjects) (s : NodeMemory K T cl) (t : T)
    (r : SessionObjects) : Prop where
  count : r.count = (s.vectors t).count
  image : (s.vectors t).naming.Image r.objects (objects s.context)

/-- What a session has come to in a run is what its requests come to by themselves. -/
structure Alone (kernels : Kernels W) (dev : W) (objects : cl.Context → CLObjects) (G : Growth)
    (ls : List (MemoryStep K W T)) (s : NodeMemory K T cl) (t : T) (r : SessionObjects) : Prop where
  exec : (immediate kernels dev).exec .init (askedBy t ls) = some r
  shows : s.Shows objects t r
  reads : readBy cl G t ls = (immediate kernels dev).trace SessionObjects.reads .init (askedBy t ls)

lemma Serves.alone {t : T} {d : SessionObjects} {pending : List (Asked × ℕ)}
    (h : Serves kernels dev objects (s.vectors t).naming s t (askedBy t ls) (readBy cl G t ls) [] d
      pending) : Alone kernels dev objects G ls s t d := by
  obtain rfl := List.map_eq_nil_iff.1 h.addresses
  obtain ⟨r, howes⟩ := h.owes
  exact ⟨howes.settled.1, ⟨h.count, h.image⟩, howes.settled.2.symm⟩

/-- The sessions of a run, with the handles of their vectors for names. -/
lemma servesAll_of_exec (hdoc : cl.Documented kernels objects)
    (h : (nodeMemory cl G).exec (NodeMemory.init cl) ls = some s) (hbound : BoundTo dev ls)
    (hvalid : Valid kernels dev ls) :
    ∃ d, ServesAll kernels dev objects G (fun t => (s.vectors t).naming) ls s d :=
  allServed_of_exec hdoc h hbound hvalid _ fun t => (s.vectors t).naming_names

/-- With nothing owed a session is served. -/
lemma alone_of_owed (hdoc : cl.Documented kernels objects)
    (h : (nodeMemory cl G).exec (NodeMemory.init cl) ls = some s) (hbound : BoundTo dev ls)
    (hvalid : Valid kernels dev ls) {t : T} (howed : owedTo (threads ls) s.base t = []) :
    ∃ r, Alone kernels dev objects G ls s t r := by
  obtain ⟨d, hall⟩ := servesAll_of_exec hdoc h hbound hvalid
  obtain ⟨pending, hserves⟩ := hall.serves t
  rw [howed] at hserves
  exact ⟨d t, hserves.alone⟩

/-- **Transparency.**  In every run, when the queue of a session is empty, the session's programs,
kernels with their arguments, and buffers are in the context what its requests come to when each is
carried out as it is made, on a node without other sessions; and its reads have found what they find
there. -/
theorem transparent (hdoc : cl.Documented kernels objects)
    (h : (nodeMemory cl G).exec (NodeMemory.init cl) ls = some s) (hbound : BoundTo dev ls)
    (hvalid : Valid kernels dev ls) {t : T} {q : ℕ} (hq : (s.base.session t).queue = some q)
    (hempty : (s.base.node.que q).queue = []) : ∃ r, Alone kernels dev objects G ls s t r :=
  alone_of_owed hdoc h hbound hvalid ((owedTo_eq hq).trans (owedOn_eq_nil (exec_threads h) hempty))

/-- Each of two sessions has its own bytes. -/
theorem transparent_twoSessions : ∃ s r,
    (nodeMemory oneDeviceCL .double).exec (NodeMemory.init _) twoSessions = some s ∧
    Alone noKernels () Prod.snd .double twoSessions s true r ∧
      r.objects.buffer 0 = some [7, 8] ∧ s.context.2.buffer 0 = some [7, 8] ∧
        s.context.2.buffer 1 = some [5, 6] := by
  have hrun : (nodeMemory oneDeviceCL .double).exec (NodeMemory.init _) twoSessions = some _ := rfl
  obtain ⟨r, hr⟩ := transparent (plainCL_documented ..) hrun (boundTo_unit _) twoSessions_valid
    (t := true) (q := 0) rfl rfl
  have hexec : (immediate noKernels ()).exec .init (askedBy true twoSessions) = some _ := rfl
  cases hexec.symm.trans hr.exec
  exact ⟨_, _, hrun, hr, rfl, rfl, rfl⟩

/-- **Reads in order.**  At any time, what the reads of a session have found is the beginning of
what they find when every request is carried out as it is made. -/
theorem reads_in_order (hdoc : cl.Documented kernels objects)
    (h : (nodeMemory cl G).exec (NodeMemory.init cl) ls = some s) (hbound : BoundTo dev ls)
    (hvalid : Valid kernels dev ls) (t : T) :
    readBy cl G t ls <+:
      (immediate kernels dev).trace SessionObjects.reads .init (askedBy t ls) := by
  obtain ⟨d, hall⟩ := servesAll_of_exec hdoc h hbound hvalid
  obtain ⟨pending, hserves⟩ := hall.serves t
  obtain ⟨r, howes⟩ := hserves.owes
  exact howes.said_begins

/-- A session that reads before it has written, and once more behind that. -/
def readsTwice : List (MemoryStep Ticks Unit Bool) :=
  newSession true ++ [.handle true ⟨.enqueueReadBuffer 0 0 2 0, []⟩] ++
    writesAndReads true [7, 8] ++ newSession false ++ writesAndReads false [5, 6] ++ workerTurn

/-- The first read has been executed, the write and the second wait. -/
theorem reads_in_order_twice : readBy oneDeviceCL .double true readsTwice = [[0, 0]] ∧
    (immediate noKernels ()).trace SessionObjects.reads .init (askedBy true readsTwice) =
      [[0, 0], [7, 8]] ∧
    readBy oneDeviceCL .double true readsTwice <+:
      (immediate noKernels ()).trace SessionObjects.reads .init (askedBy true readsTwice) := by
  have hrun : (nodeMemory oneDeviceCL .double).exec (NodeMemory.init _) readsTwice = some _ := rfl
  have hvalid : Valid noKernels () readsTwice := by
    rintro (_ | _) <;> rfl
  exact ⟨rfl, rfl, reads_in_order (plainCL_documented ..) hrun (boundTo_unit _) hvalid true⟩

/-- **No failure but its own.**  What a command asks of OpenCL when it is executed is valid, if its
pointers can be followed, whatever other sessions have done in between. -/
theorem valid_calls (hdoc : cl.Documented kernels objects)
    (h : (nodeMemory cl G).exec (NodeMemory.init cl) ls = some s) (hbound : BoundTo dev ls)
    (hvalid : Valid kernels dev ls) {w : W} {t : T} {call : DeviceCall}
    (hrunning : s.running w = some (t, call)) :
    ∃ S, (objects s.context).exec kernels w call = some S := by
  obtain ⟨q, comm, work, hpc, hp, hcall⟩ := running_inv hrunning
  obtain rfl := device_of_executing h hbound hpc
  obtain ⟨d, hall⟩ := servesAll_of_exec hdoc h hbound hvalid
  obtain ⟨pending, hserves⟩ := hall.serves t
  obtain ⟨-, rest, howed⟩ := owed_of_executing h hpc hp (1 : K)
  rw [howed] at hserves
  obtain ⟨S, -, -, hS, -⟩ :=
    hserves.first (hall.distinct.apart t) (s.vectors t).naming_names hp hcall
  exact ⟨S, hS⟩

/-- Two sessions release their buffers, one of which is read before. -/
def readsAndReleases : List (MemoryStep Ticks Unit Bool) :=
  newSession true ++ newSession false ++
    [.handle false ⟨.enqueueReadBuffer 0 0 2 0, []⟩, .handle false ⟨.releaseMemObject 0, []⟩,
      .handle true ⟨.releaseMemObject 0, []⟩] ++ workerTurn ++ workerBegins

/-- The first buffer has been released, and the worker is about to read the second. -/
theorem valid_calls_release : ∃ s S,
    (nodeMemory oneDeviceCL .double).exec (NodeMemory.init _) readsAndReleases = some s ∧
      s.context.2.buffer 0 = none ∧ s.running () = some (false, .readBuffer 1 0 2) ∧
        s.context.2.exec noKernels () (.readBuffer 1 0 2) = some S := by
  obtain ⟨s, hrun, hreleased, hrunning⟩ : ∃ s,
      (nodeMemory oneDeviceCL .double).exec (NodeMemory.init _) readsAndReleases = some s ∧
        s.context.2.buffer 0 = none ∧ s.running () = some (false, .readBuffer 1 0 2) :=
    ⟨_, rfl, rfl, rfl⟩
  have hvalid : Valid noKernels () readsAndReleases := by
    rintro (_ | _) <;> rfl
  obtain ⟨S, hS⟩ := valid_calls (plainCL_documented ..) hrun (boundTo_unit _) hvalid hrunning
  exact ⟨s, S, hrun, hreleased, hrunning, hS⟩

/-- The command a session waits for is a finish command. -/
lemma work_of_finishing (h : (nodeMemory cl G).exec (NodeMemory.init cl) ls = some s) {t : T}
    {v q p : ℕ} (ht : s.base.session t = .finishing v q p) : s.work p = some (t, .finish) := by
  refine (nodeMemory cl G).exec_induction (P := fun _ s => ∀ t v q p,
    s.base.session t = .finishing v q p → s.work p = some (t, .finish)) ?_ ?_ h t v q p ht
  · intro t v q p ht
    cases ht
  · intro ls s l s' hs ih hl t v q p ht
    have hbase := exec_threads hs
    have hbound : ∀ v q p, s.base.session t = .finishing v q p → p ≠ s.base.nextPtr := by
      intro v q p hold
      exact ((history_of_exec hbase).bound _ ((history_of_exec hbase).waits t v q p hold)).ne
    cases moves_of_step hl with
    | create hc hresolve hcl => exact ih t v q p ht
    | @push t₀ a call work base hnone hc hwork hpush =>
        rcases finishing_step (step_inv hpush) ht with hold | ⟨hlabel, -, rfl⟩
        · exact (Function.update_of_ne (hbound v q p hold) _ _).trans (ih t v q p hold)
        · obtain ⟨rfl, queueId, hrequest⟩ := eq_finish_of_label hlabel
          rw [hrequest] at hc
          cases hc
          rw [Vectors.command] at hwork
          split at hwork
          · cases hwork
            exact Function.update_self _ _ _
          · cases hwork
    | nothing hnone hc => exact ih t v q p ht
    | execute hpc hwork hc hcl hend =>
        have hsession := session_endExec hend
        exact ih t v q p (hsession ▸ ht)
    | @other m base hm hother =>
        rcases finishing_step (step_inv hother) ht with hold | ⟨rfl, -⟩
        · exact ih t v q p hold
        · cases hm

/-- **`clFinish`.**  When `CommandFinish::Wait` may return, the session is served, although its
finish command may still be at work. -/
theorem finished (hdoc : cl.Documented kernels objects)
    (h : (nodeMemory cl G).exec (NodeMemory.init cl) ls = some s) (hbound : BoundTo dev ls)
    (hvalid : Valid kernels dev ls) {t : T} {v q p : ℕ}
    (ht : s.base.session t = .finishing v q p) {b : State K W T}
    (hpass : computeNode.step s.base (.passWait t) = some b) :
    ∃ r, Alone kernels dev objects G ls s t r := by
  have hq : (s.base.session t).queue = some q := by rw [ht, SessionPc.queue]
  rcases owedOn_of_passWait (exec_threads h) ht hpass with hnil | hlast
  · exact alone_of_owed hdoc h hbound hvalid ((owedTo_eq hq).trans hnil)
  · obtain ⟨d, hall⟩ := servesAll_of_exec hdoc h hbound hvalid
    obtain ⟨pending, hserves⟩ := hall.serves t
    rw [owedTo_eq hq, hlast] at hserves
    obtain ⟨d', pending', hserves'⟩ := hserves.finish (hall.distinct.apart t)
      (s.vectors t).naming_names (work_of_finishing h ht)
    exact ⟨d', hserves'.alone⟩

/-- A session waits for what it has written, and the worker has come to the finish command. -/
def writesAndWaits : List (MemoryStep Ticks Unit Bool) :=
  newSession true ++ [.handle true ⟨.enqueueWriteBuffer 0 0 2 0 [7, 8], []⟩,
    .handle true ⟨.finish 0, []⟩] ++ workerTurn ++ workerBegins

/-- The wait may return while the command is at work. -/
theorem finished_run : ∃ s b r,
    (nodeMemory oneDeviceCL .double).exec (NodeMemory.init _) writesAndWaits = some s ∧
    computeNode.step s.base (.passWait true) = some b ∧ s.running () = some (true, .finish 0) ∧
    Alone noKernels () Prod.snd .double writesAndWaits s true r ∧
      r.objects.buffer 0 = some [7, 8] := by
  obtain ⟨s, b, hrun, hpass, hrunning, hsession⟩ : ∃ s b,
      (nodeMemory oneDeviceCL .double).exec (NodeMemory.init _) writesAndWaits = some s ∧
        computeNode.step s.base (.passWait true) = some b ∧ s.running () = some (true, .finish 0) ∧
          s.base.session true = .finishing 0 0 1 := ⟨_, _, rfl, rfl, rfl, rfl⟩
  have hvalid : Valid noKernels () writesAndWaits := by
    rintro (_ | _) <;> rfl
  obtain ⟨r, hr⟩ :=
    finished (plainCL_documented ..) hrun (boundTo_unit _) hvalid hsession hpass
  have hexec : (immediate noKernels ()).exec .init (askedBy true writesAndWaits) = some _ := rfl
  cases hexec.symm.trans hr.exec
  exact ⟨s, b, _, hrun, hpass, hrunning, hr, rfl⟩

/-- **No interference.**  Two runs in which a session asks for the same, whatever the other sessions
do, bring its objects to the same and have read the same for it. -/
theorem undisturbed (hdoc : cl.Documented kernels objects) {s₁ s₂ : NodeMemory K T cl}
    {ls₁ ls₂ : List (MemoryStep K W T)} {t : T} {p q : ℕ}
    (h₁ : (nodeMemory cl G).exec (NodeMemory.init cl) ls₁ = some s₁) (hbound₁ : BoundTo dev ls₁)
    (hvalid₁ : Valid kernels dev ls₁)
    (h₂ : (nodeMemory cl G).exec (NodeMemory.init cl) ls₂ = some s₂) (hbound₂ : BoundTo dev ls₂)
    (hvalid₂ : Valid kernels dev ls₂) (hasked : askedBy t ls₁ = askedBy t ls₂)
    (hp : (s₁.base.session t).queue = some p) (hempty₁ : (s₁.base.node.que p).queue = [])
    (hq : (s₂.base.session t).queue = some q) (hempty₂ : (s₂.base.node.que q).queue = []) :
    readBy cl G t ls₁ = readBy cl G t ls₂ ∧ ∃ r, Alone kernels dev objects G ls₁ s₁ t r ∧
      Alone kernels dev objects G ls₂ s₂ t r := by
  obtain ⟨r₁, halone₁⟩ := alone_of_owed hdoc h₁ hbound₁ hvalid₁
    ((owedTo_eq hp).trans (owedOn_eq_nil (exec_threads h₁) hempty₁))
  obtain ⟨r₂, halone₂⟩ := alone_of_owed hdoc h₂ hbound₂ hvalid₂
    ((owedTo_eq hq).trans (owedOn_eq_nil (exec_threads h₂) hempty₂))
  have hr := halone₁.exec
  rw [hasked, halone₂.exec, Option.some.injEq] at hr
  subst hr
  exact ⟨by rw [halone₁.reads, halone₂.reads, hasked], r₂, halone₁, halone₂⟩

/-- The same session, without the other. -/
def oneSession : List (MemoryStep Ticks Unit Bool) :=
  newSession true ++ writesAndReads true [7, 8] ++ workerTurn ++ workerTurn

/-- A session with another and by itself. -/
theorem undisturbed_sessions : ∃ s₁ s₂ r,
    (nodeMemory oneDeviceCL .double).exec (NodeMemory.init _) twoSessions = some s₁ ∧
    (nodeMemory oneDeviceCL .double).exec (NodeMemory.init _) oneSession = some s₂ ∧
    readBy oneDeviceCL .double true twoSessions = [[7, 8]] ∧
    readBy oneDeviceCL .double true oneSession = [[7, 8]] ∧
    Alone noKernels () Prod.snd .double twoSessions s₁ true r ∧
    Alone noKernels () Prod.snd .double oneSession s₂ true r := by
  have h₁ : (nodeMemory oneDeviceCL .double).exec (NodeMemory.init _) twoSessions = some _ := rfl
  have h₂ : (nodeMemory oneDeviceCL .double).exec (NodeMemory.init _) oneSession = some _ := rfl
  have hvalid : Valid noKernels () oneSession := by
    rintro (_ | _) <;> rfl
  obtain ⟨-, r, hr₁, hr₂⟩ := undisturbed (plainCL_documented ..) h₁ (boundTo_unit _)
    twoSessions_valid h₂ (boundTo_unit _) hvalid (t := true) (p := 0) (q := 0) rfl rfl rfl rfl rfl
  exact ⟨_, _, r, h₁, h₂, rfl, rfl, hr₁, hr₂⟩

end ElasticFramework
