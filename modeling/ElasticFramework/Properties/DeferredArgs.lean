import ElasticFramework.Properties.PendingArgs

/-!
# Deferred and immediate kernel arguments

A range launch sends the arguments waiting on the client, a task does not.  `launched` lists what
every launch of a run sees, those still queued included, in the order of the calls; it is what
each call predicts (`launched_eq`), and with `Tracks` the prediction of a call can be compared
with the arguments last set before it.

Two results come of it.  Without tasks the deferral is unobservable (`deferred_eq_immediate`).
With tasks, exactly the runs whose tasks are called with nothing stale behave
(`tasks_see_latest_iff`).
-/

namespace ElasticFramework

/-- A call that puts a command on the queue. -/
def KernelCall.isLaunch : KernelCall → Bool
  | .enqueueNDRangeKernel _ | .enqueueTask _ => true
  | _ => false

/-- The call launches kernel `k`. -/
def KernelCall.Launches (k : ℕ) : KernelCall → Prop
  | .enqueueNDRangeKernel j | .enqueueTask j => j = k
  | _ => False

/-- What the call binds an argument of kernel `k` to. -/
def KernelCall.binds (isPointer : ℕ → List Bool) (k : ℕ) : KernelCall → Option Binding
  | .setKernelArg j i v => if j = k then ((isPointer k)[i]?).map v.binding else none
  | _ => none

namespace Lockstep

/-- The kernel and arguments of a launch, when the node makes it. -/
def observes (s : Lockstep) : KernelCall → List (ℕ × (ℕ → Option Binding))
  | .exec =>
    match s.code.commands with
    | [] => []
    | comm :: _ => [(comm.kernelId, comm.exec (s.code.args comm.kernelId))]
  | _ => []

/-- The kernel and its arguments as last set, when the client asks for a launch. -/
def expects (s : Lockstep) : KernelCall → List (ℕ × (ℕ → Option Binding))
  | .enqueueNDRangeKernel k | .enqueueTask k => [(k, s.immediate k)]
  | _ => []

/-- What the launch the client asks for will see. -/
def predicts (s : Lockstep) : KernelCall → List (ℕ × (ℕ → Option Binding))
  | .enqueueNDRangeKernel k => [(k, replay (s.code.kernels k).pending (s.code.delivered k))]
  | .enqueueTask k => [(k, s.code.delivered k)]
  | _ => []

lemma length_predicts (s : Lockstep) (l : KernelCall) :
    (s.predicts l).length = if l.isLaunch then 1 else 0 := by
  cases l <;> rfl

end Lockstep

/-! ## What the launches of a run see -/

variable {isPointer : ℕ → List Bool} {ls : List KernelCall} {s : Lockstep}

/-- What each launch of a run to `s` sees, in the order of the calls: those the node has made and
those on its queue. -/
def launched (isPointer : ℕ → List Bool) (ls : List KernelCall) (s : Lockstep) :
    List (ℕ × (ℕ → Option Binding)) :=
  kernelSession.trace Lockstep.observes (Lockstep.init isPointer) ls ++
    upcoming s.code.commands s.code.args

/-- What each launch of a run would see had every argument been set at once. -/
def expected (isPointer : ℕ → List Bool) (ls : List KernelCall) :
    List (ℕ × (ℕ → Option Binding)) :=
  kernelSession.trace Lockstep.expects (Lockstep.init isPointer) ls

/-- A launch enters the queue as predicted, and the queue keeps what it holds. -/
lemma observes_append_upcoming {s' : Lockstep} {l : KernelCall}
    (hs : kernelSession.step s l = some s') :
    s.observes l ++ upcoming s'.code.commands s'.code.args =
      upcoming s.code.commands s.code.args ++ s.predicts l := by
  cases l with
  | setKernelArg k i v =>
      cases hs
      exact (List.append_nil _).symm
  | enqueueNDRangeKernel k =>
      simp only [kernelSession, KernelSession.step, Option.map_map, Option.map_eq_some_iff,
        Function.comp_apply] at hs
      obtain ⟨comm, hcomm, rfl⟩ := hs
      obtain ⟨-, hid, hexec⟩ := handlerEnqueueNDRangeKernel_inv hcomm
      show upcoming (s.code.commands ++ [comm]) s.code.args = _
      rw [upcoming_snoc, hid, hexec]
      rfl
  | enqueueTask k =>
      cases hs
      show upcoming (s.code.commands ++ [handlerEnqueueTask k]) s.code.args = _
      rw [upcoming_snoc, exec_task]
      rfl
  | exec =>
      obtain ⟨comm, rest, hcommands, rfl⟩ := exec_front hs
      simp only [Lockstep.observes, Lockstep.predicts, hcommands, List.append_nil]
      rfl

lemma launched_eq (h : kernelSession.exec (Lockstep.init isPointer) ls = some s) :
    launched isPointer ls s =
      kernelSession.trace Lockstep.predicts (Lockstep.init isPointer) ls :=
  (kernelSession.trace_buffer (fun s => upcoming s.code.commands s.code.args) h
    fun _ _ _ hs => observes_append_upcoming hs).trans (List.nil_append _)

/-- The entry of a launch stands after those of the launches called before it. -/
lemma launched_getElem? {pre post : List KernelCall} {l : KernelCall} {t : Lockstep}
    {x : ℕ × (ℕ → Option Binding)}
    (h : kernelSession.exec (Lockstep.init isPointer) (pre ++ l :: post) = some s)
    (ht : kernelSession.exec (Lockstep.init isPointer) pre = some t) (hl : t.predicts l = [x]) :
    (launched isPointer (pre ++ l :: post) s)[pre.countP KernelCall.isLaunch]? = some x := by
  rw [launched_eq h, kernelSession.trace_append _ _ ht,
    ← kernelSession.length_trace Lockstep.length_predicts ht,
    List.getElem?_append_right (Nat.le_refl _), Nat.sub_self, Machine.trace, hl]
  rfl

lemma Tracks.of_exec (h : kernelSession.exec (Lockstep.init isPointer) ls = some s) : Tracks s :=
  kernelSession.invariant (Tracks.init isPointer) (fun _ _ _ ht hs => ht.step hs) h

/-- The parameters of a kernel never change. -/
lemma isPointer_clSetKernelArg (kernel : ClKernel) (i : ℕ) (v : ArgValue) :
    (clSetKernelArg kernel i v).2.isPointer = kernel.isPointer := by
  unfold clSetKernelArg
  split <;> rfl

lemma isPointer_step {s' : Lockstep} {l : KernelCall} (hs : kernelSession.step s l = some s')
    (k : ℕ) : (s'.code.kernels k).isPointer = (s.code.kernels k).isPointer := by
  cases l with
  | setKernelArg j i v =>
      rw [(setKernelArg_inv hs).1]
      by_cases hk : k = j
      · subst hk
        simp [isPointer_clSetKernelArg]
      · simp [hk]
  | enqueueNDRangeKernel j =>
      rw [(enqueueNDRangeKernel_inv hs).2.1]
      by_cases hk : k = j
      · subst hk
        simp [ClKernel.clear]
      · simp [hk]
  | enqueueTask j => rw [(enqueueTask_inv hs).1]
  | exec => rw [(exec_inv hs).1]

lemma isPointer_of_exec (h : kernelSession.exec (Lockstep.init isPointer) ls = some s) (k : ℕ) :
    (s.code.kernels k).isPointer = isPointer k :=
  kernelSession.invariant (I := fun s => (s.code.kernels k).isPointer = isPointer k) rfl
    (fun _ _ _ ht hs => (isPointer_step hs k).trans ht) h

/-! ## Range launches only -/

/-- Calls of `clSetKernelArg` whose index fits a byte and whose buffer is a real one, and range
launches. -/
def KernelCall.Deferrable (isPointer : ℕ → List Bool) : KernelCall → Prop
  | .setKernelArg k i v => ∀ p, (isPointer k)[i]? = some p →
      i < 2 ^ 8 ∧ (p = true → ∃ memId, v.mem = some memId ∧ memId ≠ nullMemId)
  | .enqueueNDRangeKernel _ | .exec => True
  | .enqueueTask _ => False

/-- What such calls keep: no index and no buffer that the lists cannot carry. -/
structure Carried (isPointer : ℕ → List Bool) (s : Lockstep) : Prop where
  isPointer : ∀ k, (s.code.kernels k).isPointer = isPointer k
  addressable : ∀ k, s.Addressable k
  notNull : ∀ k, ∀ x ∈ (s.code.kernels k).changedMemId, x.2 ≠ nullMemId

namespace Carried

lemma init : Carried isPointer (Lockstep.init isPointer) where
  isPointer := fun _ => rfl
  addressable := fun _ _ _ => rfl
  notNull := by simp [Lockstep.init, ClKernel.new]

lemma step {s' : Lockstep} {l : KernelCall} (h : Carried isPointer s)
    (hl : l.Deferrable isPointer) (hs : kernelSession.step s l = some s') :
    Carried isPointer s' := by
  have hpointer : ∀ k, (s'.code.kernels k).isPointer = isPointer k := fun k => by
    rw [isPointer_step hs, h.isPointer]
  cases l with
  | setKernelArg k i v =>
      obtain ⟨hkernels, -, himm⟩ := setKernelArg_inv hs
      refine ⟨hpointer, ?_, ?_⟩
      · intro j m hm
        simp only [himm, Lockstep.setImmediate, h.isPointer]
        cases hp : (isPointer k)[i]? with
        | none => exact h.addressable j m hm
        | some p =>
            have hi := (hl p hp).1
            have hne : m ≠ i := by omega
            by_cases hj : j = k
            · subst hj
              simpa [hne] using h.addressable j m hm
            · simpa [hj] using h.addressable j m hm
      · intro j
        by_cases hj : j = k
        · subst hj
          rw [hkernels, Function.update_self]
          unfold clSetKernelArg
          split
          · exact h.notNull j
          · rename_i hp
            obtain ⟨memId, hmem, hnull⟩ := (hl true (h.isPointer j ▸ hp)).2 rfl
            intro x hx
            rcases List.mem_append.1 hx with hx | hx
            · exact h.notNull j x hx
            · rw [List.mem_singleton.1 hx, hmem]
              exact hnull
          · exact h.notNull j
        · simpa [hkernels, hj] using h.notNull j
  | enqueueNDRangeKernel k =>
      obtain ⟨-, hkernels, -, himm⟩ := enqueueNDRangeKernel_inv hs
      refine ⟨hpointer, ?_, fun j => ?_⟩
      · simpa only [Lockstep.Addressable, himm] using h.addressable
      · rw [hkernels]
        by_cases hj : j = k
        · subst hj
          simp [ClKernel.clear]
        · simpa [hj] using h.notNull j
  | enqueueTask k => exact hl.elim
  | exec =>
      obtain ⟨hkernels, -, himm⟩ := exec_inv hs
      refine ⟨hpointer, ?_, ?_⟩
      · simpa only [Lockstep.Addressable, himm] using h.addressable
      · rw [hkernels]
        exact h.notNull

lemma of_exec (h : kernelSession.exec (Lockstep.init isPointer) ls = some s)
    (hls : ∀ l ∈ ls, l.Deferrable isPointer) : Carried isPointer s :=
  kernelSession.invariant_of_allSteps (G := fun _ l => l.Deferrable isPointer) init
    (fun _ _ _ ht hl hs => ht.step hl hs)
    (kernelSession.allSteps_of_forall_mem fun l hl _ => hls l hl) h

end Carried

/-- **Deferred arguments.**  When every index fits a byte and no buffer has the reserved id, each
range launch is accepted and sees every argument of its kernel as if each call had been applied
to the device kernel at once. -/
theorem deferred_eq_immediate (h : kernelSession.exec (Lockstep.init isPointer) ls = some s)
    (hls : ∀ l ∈ ls, l.Deferrable isPointer) :
    launched isPointer ls s = expected isPointer ls ∧
      ∀ k, (kernelSession.step s (.enqueueNDRangeKernel k)).isSome := by
  constructor
  · rw [launched_eq h, expected]
    refine kernelSession.trace_congr h ?_
    rintro t l ⟨pre, post, rfl, ht⟩
    have hcarried : Carried isPointer t :=
      .of_exec ht fun m hm => hls m (List.mem_append_left _ hm)
    cases l with
    | enqueueNDRangeKernel k =>
        rw [Lockstep.predicts, Lockstep.expects,
          (Tracks.of_exec ht).replay_pending_eq (hcarried.addressable k) (hcarried.notNull k)]
    | enqueueTask k => exact (hls (.enqueueTask k) (by simp)).elim
    | setKernelArg k i v => rfl
    | exec => rfl
  · intro k
    obtain ⟨comm, hcomm⟩ := handlerEnqueueNDRangeKernel_isSome k
      ((Carried.of_exec h hls).notNull k) (Or.inr (by rw [(Tracks.of_exec h).length k]))
    simp [kernelSession, KernelSession.step, hcomm]

/-- Two launches queued at once; argument `1` is set again between them. -/
def twoLaunches : List KernelCall :=
  [.setKernelArg 0 1 ⟨some 4, [1, 0]⟩, .setKernelArg 0 0 ⟨some 4, [4]⟩, .enqueueNDRangeKernel 0,
    .setKernelArg 0 1 ⟨some 5, [2, 0]⟩, .enqueueNDRangeKernel 0, .exec, .exec]

theorem deferred_eq_immediate_run :
    ∃ s, kernelSession.exec (Lockstep.init fun _ => [true, false]) twoLaunches = some s ∧
      launched (fun _ => [true, false]) twoLaunches s =
        expected (fun _ => [true, false]) twoLaunches ∧
      ∀ k, (kernelSession.step s (.enqueueNDRangeKernel k)).isSome := by
  have hrun : kernelSession.exec (Lockstep.init fun _ => [true, false]) twoLaunches = some _ := rfl
  refine ⟨_, hrun, deferred_eq_immediate hrun ?_⟩
  simp [twoLaunches, KernelCall.Deferrable, nullMemId]

/-- A kernel with `257` parameters: the byte the index is kept in makes argument `256` argument
`0`. -/
theorem wide_index_unbound :
    ∃ s, kernelSession.exec (Lockstep.init fun _ => List.replicate 257 false)
        [.setKernelArg 0 256 ⟨some 4, [7]⟩, .enqueueNDRangeKernel 0, .exec] = some s ∧
      launched (fun _ => List.replicate 257 false)
          [.setKernelArg 0 256 ⟨some 4, [7]⟩, .enqueueNDRangeKernel 0, .exec] s ≠
        expected (fun _ => List.replicate 257 false)
          [.setKernelArg 0 256 ⟨some 4, [7]⟩, .enqueueNDRangeKernel 0, .exec] := by
  refine ⟨_, rfl, fun heq => ?_⟩
  have hentry := congrArg (fun l => l[0]?.map fun x => x.2 256) heq
  exact absurd hentry (by decide)

/-! ## Tasks -/

/-- Each task of a run to `s` sees the arguments as last set before its call, and a later launch
of the kernel sees in each argument what the task should have seen or something set since. -/
structure TasksSeeLatest (isPointer : ℕ → List Bool) (ls : List KernelCall) (s : Lockstep) :
    Prop where
  task : ∀ pre k post t, ls = pre ++ .enqueueTask k :: post →
    kernelSession.exec (Lockstep.init isPointer) pre = some t →
    (launched isPointer ls s)[pre.countP KernelCall.isLaunch]? = some (k, t.immediate k)
  later : ∀ pre k mid l post t, ls = (pre ++ .enqueueTask k :: mid) ++ l :: post →
    l.Launches k → kernelSession.exec (Lockstep.init isPointer) pre = some t →
    ∃ args, (launched isPointer ls s)[(pre ++ .enqueueTask k :: mid).countP
        KernelCall.isLaunch]? = some (k, args) ∧
      ∀ i, args i = t.immediate k i ∨ ∃ b ∈ mid.filterMap (KernelCall.binds isPointer k),
        args i = some b

/-- The arguments of kernel `k`, on the device and on their way, are from `old` or among `new`. -/
structure NoOlder (k : ℕ) (old : ℕ → Option Binding) (new : List Binding) (s : Lockstep) :
    Prop where
  delivered : ∀ i, s.code.delivered k i = old i ∨ ∃ b ∈ new, s.code.delivered k i = some b
  pending : ∀ i b, lastWrite i (s.code.kernels k).pending = some b →
    some b = old i ∨ b ∈ new ∨ b = .buffer nullMemId

namespace NoOlder

variable {k : ℕ} {old : ℕ → Option Binding} {new : List Binding}

/-- What a launch would deliver now. -/
lemma replay_pending (h : NoOlder k old new s)
    (hnull : ∀ x ∈ (s.code.kernels k).changedMemId, x.2 ≠ nullMemId) (i : ℕ) :
    replay (s.code.kernels k).pending (s.code.delivered k) i = old i ∨
      ∃ b ∈ new, replay (s.code.kernels k).pending (s.code.delivered k) i = some b := by
  rw [replay_apply]
  cases hb : lastWrite i (s.code.kernels k).pending with
  | none =>
      rw [Option.none_or]
      exact h.delivered i
  | some b =>
      rw [Option.some_or]
      rcases h.pending i b hb with hold | hnew | rfl
      · exact Or.inl hold
      · exact Or.inr ⟨b, hnew, rfl⟩
      · exact absurd rfl (ClKernel.raw_of_lastWrite_pending hnull hb).2

lemma mono {more : List Binding} (h : NoOlder k old new s) : NoOlder k old (new ++ more) s where
  delivered := fun i => (h.delivered i).imp id fun ⟨b, hb, heq⟩ =>
    ⟨b, List.mem_append_left _ hb, heq⟩
  pending := fun i b hb => (h.pending i b hb).imp id (Or.imp (List.mem_append_left _) id)

lemma congr {s' : Lockstep} (h : NoOlder k old new s)
    (hpending : (s'.code.kernels k).pending = (s.code.kernels k).pending)
    (hdelivered : s'.code.delivered k = s.code.delivered k) : NoOlder k old new s' where
  delivered := hdelivered ▸ h.delivered
  pending := hpending ▸ h.pending

lemma setKernelArg {s' : Lockstep} {i : ℕ} {v : ArgValue} (h : NoOlder k old new s)
    (htracks : Tracks s) (hpointer : (s.code.kernels k).isPointer = isPointer k)
    (hs : kernelSession.step s (.setKernelArg k i v) = some s') :
    NoOlder k old (new ++ (KernelCall.binds isPointer k (.setKernelArg k i v)).toList) s' := by
  obtain ⟨hkernels, hdelivered, -⟩ := setKernelArg_inv hs
  refine ⟨hdelivered ▸ h.mono.delivered, fun m b hb => ?_⟩
  rw [hkernels, Function.update_self] at hb
  rcases lastWrite_pending_clSetKernelArg (htracks.length k) hb with hb | ⟨p, hp, rfl⟩
  · exact h.mono.pending m b hb
  · have hbinds : v.binding p ∈
        new ++ (KernelCall.binds isPointer k (.setKernelArg k i v)).toList := by
      simp [KernelCall.binds, ← hpointer, hp]
    rcases (v.binding p).raw_eq with heq | heq
    · rw [heq]
      exact Or.inr (Or.inl hbinds)
    · exact Or.inr (Or.inr heq)

lemma step {s' : Lockstep} {l : KernelCall} (h : NoOlder k old new s) (htracks : Tracks s)
    (hpointer : (s.code.kernels k).isPointer = isPointer k)
    (hs : kernelSession.step s l = some s') :
    NoOlder k old (new ++ (l.binds isPointer k).toList) s' := by
  cases l with
  | setKernelArg j i v =>
      by_cases hj : j = k
      · subst hj
        exact h.setKernelArg htracks hpointer hs
      · obtain ⟨hkernels, hdelivered, -⟩ := setKernelArg_inv hs
        refine h.mono.congr ?_ (by rw [hdelivered])
        rw [hkernels, Function.update_of_ne (Ne.symm hj)]
  | enqueueNDRangeKernel j =>
      obtain ⟨hnull, hkernels, hdelivered, -⟩ := enqueueNDRangeKernel_inv hs
      by_cases hj : j = k
      · subst hj
        refine NoOlder.mono ⟨fun i => ?_, fun i b hb => ?_⟩
        · rw [hdelivered, Function.update_self]
          exact h.replay_pending hnull i
        · rw [hkernels, Function.update_self] at hb
          cases hb
      · refine h.mono.congr ?_ ?_
        · rw [hkernels, Function.update_of_ne (Ne.symm hj)]
        · rw [hdelivered, Function.update_of_ne (Ne.symm hj)]
  | enqueueTask j =>
      obtain ⟨hkernels, hdelivered, -⟩ := enqueueTask_inv hs
      exact h.mono.congr (by rw [hkernels]) (by rw [hdelivered])
  | exec =>
      obtain ⟨hkernels, hdelivered, -⟩ := exec_inv hs
      exact h.mono.congr (by rw [hkernels]) (by rw [hdelivered])

/-- A run of calls delivers nothing but what was there and what they set. -/
lemma exec {pre mid : List KernelCall} {t : Lockstep} (h : NoOlder k old [] t)
    (ht : kernelSession.exec (Lockstep.init isPointer) pre = some t)
    (hs : kernelSession.exec t mid = some s) :
    NoOlder k old (mid.filterMap (KernelCall.binds isPointer k)) s := by
  refine kernelSession.exec_induction (P := fun mid s =>
    NoOlder k old (mid.filterMap (KernelCall.binds isPointer k)) s) h ?_ hs
  intro mid u l u' hu ih hl
  have hexec := kernelSession.exec_append_iff.2 ⟨t, ht, hu⟩
  rw [List.filterMap_append]
  have hstep := ih.step (Tracks.of_exec hexec) (isPointer_of_exec hexec k) hl
  cases hb : l.binds isPointer k with
  | none => simpa [List.filterMap_cons, hb] using hstep
  | some b => simpa [List.filterMap_cons, hb] using hstep

end NoOlder

/-- **Tasks.**  The tasks of a run see the arguments as last set, and later launches nothing older,
exactly when each `clEnqueueTask` comes with every index set on the kernel in a byte and with
nothing on the client that the launches before it do not deliver. -/
theorem tasks_see_latest_iff (h : kernelSession.exec (Lockstep.init isPointer) ls = some s) :
    TasksSeeLatest isPointer ls s ↔
      kernelSession.AllSteps (fun t l => ∀ k, l = .enqueueTask k → t.Addressable k ∧ t.Flushed k)
        (Lockstep.init isPointer) ls := by
  constructor
  · rintro hlatest t l ⟨pre, post, rfl, ht⟩ k rfl
    have hseen := launched_getElem? h ht (x := (k, t.code.delivered k)) rfl
    rw [hlatest.task pre k post t rfl ht] at hseen
    exact ((Tracks.of_exec ht).delivered_eq_iff k).1 (Prod.mk.inj (Option.some.inj hseen)).2.symm
  · intro hall
    have hdelivered : ∀ pre k post t, ls = pre ++ .enqueueTask k :: post →
        kernelSession.exec (Lockstep.init isPointer) pre = some t →
        t.Flushed k ∧ t.code.delivered k = t.immediate k := by
      intro pre k post t hls ht
      have hstep := hall t (.enqueueTask k) ⟨pre, post, hls, ht⟩ k rfl
      exact ⟨hstep.2, ((Tracks.of_exec ht).delivered_eq_iff k).2 hstep⟩
    constructor
    · intro pre k post t hls ht
      subst hls
      rw [← (hdelivered pre k post t rfl ht).2]
      exact launched_getElem? h ht rfl
    · intro pre k mid l post t hls hl ht
      subst hls
      obtain ⟨hflushed, heq⟩ := hdelivered pre k (mid ++ l :: post) t (by simp) ht
      have hnone : NoOlder k (t.immediate k) [] t := by
        refine ⟨fun i => Or.inl (by rw [heq]), fun i b hb => Or.inl ?_⟩
        rw [← heq, hflushed i b hb]
      obtain ⟨u, hu, hrest⟩ := kernelSession.exec_append_iff.1 h
      obtain ⟨t', ht', hmid⟩ := kernelSession.exec_append_iff.1 hu
      rw [ht] at ht'
      cases ht'
      obtain ⟨u', hstep, -⟩ := kernelSession.exec_cons_iff.1 hrest
      have hno := hnone.exec ht hmid
      cases l with
      | enqueueNDRangeKernel j =>
          cases hl
          obtain ⟨hnull, -⟩ := enqueueNDRangeKernel_inv hstep
          exact ⟨_, launched_getElem? h hu rfl, hno.replay_pending hnull⟩
      | enqueueTask j =>
          cases hl
          exact ⟨_, launched_getElem? h hu rfl, hno.delivered⟩
      | setKernelArg j i v => exact hl.elim
      | exec => exact hl.elim

/-- A task after a range launch which has brought its argument along. -/
def taskAfterLaunch : List KernelCall :=
  [.setKernelArg 0 0 ⟨some 4, [7]⟩, .enqueueNDRangeKernel 0, .enqueueTask 0, .exec, .exec]

theorem tasks_see_latest_iff_run :
    ∃ s, kernelSession.exec (Lockstep.init fun _ => [false]) taskAfterLaunch = some s ∧
      (TasksSeeLatest (fun _ => [false]) taskAfterLaunch s ↔
        kernelSession.AllSteps
          (fun t l => ∀ k, l = .enqueueTask k → t.Addressable k ∧ t.Flushed k)
          (Lockstep.init fun _ => [false]) taskAfterLaunch) := by
  have hrun : kernelSession.exec (Lockstep.init fun _ => [false]) taskAfterLaunch = some _ := rfl
  exact ⟨_, hrun, tasks_see_latest_iff hrun⟩

/-- An argument set and a task: the argument stays on the client. -/
theorem stale_task :
    ∃ s, kernelSession.exec (Lockstep.init fun _ => [false])
        [.setKernelArg 0 0 ⟨some 4, [7]⟩, .enqueueTask 0, .exec] = some s ∧
      ¬ TasksSeeLatest (fun _ => [false])
        [.setKernelArg 0 0 ⟨some 4, [7]⟩, .enqueueTask 0, .exec] s := by
  refine ⟨_, rfl, fun hlatest => ?_⟩
  have hseen := hlatest.task [.setKernelArg 0 0 ⟨some 4, [7]⟩] 0 [.exec] _ rfl rfl
  have hentry := congrArg (fun x => x.map fun x => x.2 0) hseen
  exact absurd hentry (by decide)

end ElasticFramework
