import ElasticFramework.Construction.Backlog

/-!
# Pointers of queued commands

A command is queued with a pointer to a vector's entry, and the vector may be moved before the
command runs.  It is not moved when it has room, so a command finds what it was queued for as long
as no creation meets a full vector with one of its holders waiting (`Backlog.Keeps`).  This is
`queued_command_denotes`.

The condition is exact.  A command whose entry has been moved stays behind with a stale pointer
(`Backlog.Stale`), and the worker gets to it: in a run that leaves the queue empty, every command
ran with a good pointer exactly if every step met the condition (`runsWell_iff_keeps`).
-/

namespace ElasticFramework
namespace Backlog

variable {G : Growth} {s s' : Backlog} {l : BacklogStep} {c : HeldCommand}

/-- The pointers a command holds are to entries of the vectors as they are now. -/
def Denotes (s : Backlog) (c : HeldCommand) : Prop :=
  (∀ r ∈ c.mem?, s.mems.Denotes r) ∧ ∀ r ∈ c.kernel?, s.kernels.Denotes r

instance (s : Backlog) (c : HeldCommand) : Decidable (s.Denotes c) :=
  inferInstanceAs (Decidable (_ ∧ _))

/-- A command with a pointer to storage that is gone. -/
def Stale (s : Backlog) (c : HeldCommand) : Prop :=
  (∃ r ∈ c.mem?, s.mems.Stale r) ∨ ∃ r ∈ c.kernel?, s.kernels.Stale r

/-- No vector is moved while a command that points into it is queued. -/
def Keeps (s : Backlog) : BacklogStep → Prop
  | .createBuffer _ _ => s.mems.Full → ∀ c ∈ s.queue, c.mem? = none
  | .createKernel _ => s.kernels.Full → ∀ c ∈ s.queue, c.kernel? = none
  | _ => True

instance (s : Backlog) : DecidablePred s.Keeps := fun l =>
  match l with
  | .createBuffer _ _ => inferInstanceAs (Decidable (_ → _))
  | .createKernel _ => inferInstanceAs (Decidable (_ → _))
  | .enqueueReadBuffer _ _ | .enqueueWriteBuffer _ _ | .enqueueTask _ | .enqueueNDRangeKernel _ _
  | .enqueueCopyBuffer _ _ | .releaseMemObject _ | .finishQueue | .start | .finish => isTrue trivial

/-- The command that is running finds what it points to. -/
def RunsWell (s : Backlog) : Prop :=
  s.running = true → ∀ c ∈ s.queue.head?, s.Denotes c

/-! ## What a step does -/

/-- A vector grows, a command is queued, or the worker goes on. -/
inductive Moves (G : Growth) (s : Backlog) : BacklogStep → Backlog → Prop
  | createBuffer {mem size : ℕ} (m : MemObject) :
      Moves G s (.createBuffer mem size) { s with mems := s.mems.push G m }
  | createKernel {kernel : ℕ} (k : CLKernel) :
      Moves G s (.createKernel kernel) { s with kernels := s.kernels.push G k }
  | push {l : BacklogStep} {c : HeldCommand} (hl : s.Keeps l) (hc : s.Denotes c) :
      Moves G s l (s.push c)
  | start : Moves G s .start { s with running := true }
  | finish {c : HeldCommand} {queue : List HeldCommand} (blocked : Bool)
      (hrunning : s.running = true) (hqueue : s.queue = c :: queue) :
      Moves G s .finish { s with queue := queue, running := false, blocked := blocked }

lemma denotes_of_mem {r : Reference} (hmem : c.mem? = some r) (hkernel : c.kernel? = none)
    (h : s.mems.Denotes r) : s.Denotes c := by
  simp [Denotes, hmem, hkernel, h]

lemma denotes_of_kernel {r : Reference} (hmem : c.mem? = none) (hkernel : c.kernel? = some r)
    (h : s.kernels.Denotes r) : s.Denotes c := by
  simp [Denotes, hmem, hkernel, h]

lemma denotes_of_none (hmem : c.mem? = none) (hkernel : c.kernel? = none) : s.Denotes c := by
  simp [Denotes, hmem, hkernel]

lemma moves_of_move (h : s.move G l = some s') : s.Moves G l s' := by
  cases l with
  | createBuffer mem size =>
      change s.handlerCreateBuffer G mem size = some s' at h
      unfold handlerCreateBuffer at h
      split at h
      · cases h
      · cases h
        exact .createBuffer _
  | createKernel kernel =>
      cases h
      exact .createKernel _
  | enqueueReadBuffer memId blockingRead =>
      obtain ⟨m, hm, rfl⟩ := Option.map_eq_some_iff.1 h
      exact .push trivial (denotes_of_mem rfl rfl (Storage.denotes_ref hm))
  | enqueueWriteBuffer memId blockingWrite =>
      obtain ⟨m, hm, rfl⟩ := Option.map_eq_some_iff.1 h
      exact .push trivial (denotes_of_mem rfl rfl (Storage.denotes_ref hm))
  | enqueueTask kernelId =>
      obtain ⟨k, hk, rfl⟩ := Option.map_eq_some_iff.1 h
      exact .push trivial (denotes_of_kernel rfl rfl (Storage.denotes_ref hk))
  | enqueueNDRangeKernel kernelId argMemIds =>
      obtain ⟨k, hk, h⟩ := Option.bind_eq_some_iff.1 h
      obtain ⟨argMem, -, rfl⟩ := Option.map_eq_some_iff.1 h
      exact .push trivial (denotes_of_kernel rfl rfl (Storage.denotes_ref hk))
  | enqueueCopyBuffer srcMemId dstMemId =>
      obtain ⟨src, -, h⟩ := Option.bind_eq_some_iff.1 h
      obtain ⟨dst, -, rfl⟩ := Option.map_eq_some_iff.1 h
      exact .push trivial (denotes_of_none rfl rfl)
  | releaseMemObject memId =>
      obtain ⟨m, -, rfl⟩ := Option.map_eq_some_iff.1 h
      exact .push trivial (denotes_of_none rfl rfl)
  | finishQueue =>
      cases h
      exact .push trivial (denotes_of_none rfl rfl)
  | start =>
      change s.start = some s' at h
      unfold Backlog.start at h
      split at h
      · cases h
      · cases h
        exact .start
  | finish =>
      change s.finish = some s' at h
      unfold Backlog.finish at h
      split at h
      · next hrunning hqueue =>
          cases h
          exact .finish _ hrunning hqueue
      · cases h

lemma moves_of_step (h : (backlog G).step s l = some s') : s.Moves G l s' := by
  unfold backlog at h
  dsimp only at h
  split at h
  · cases h
  · exact moves_of_move h

/-! ## Good pointers stay good -/

/-- Every queued command's pointers are good. -/
def Sound (s : Backlog) : Prop := ∀ c ∈ s.queue, s.Denotes c

lemma Sound.step (h : s.Sound) (hkeeps : s.Keeps l) (hmoves : s.Moves G l s') : s'.Sound := by
  cases hmoves with
  | createBuffer m =>
      intro c hc
      refine ⟨fun r hr => ((h c hc).1 r hr).push fun hfull => ?_, (h c hc).2⟩
      rw [hkeeps hfull c hc] at hr
      cases hr
  | createKernel k =>
      intro c hc
      refine ⟨(h c hc).1, fun r hr => ((h c hc).2 r hr).push fun hfull => ?_⟩
      rw [hkeeps hfull c hc] at hr
      cases hr
  | push _ hnew =>
      intro c hc
      rcases List.mem_append.1 hc with hc | hc
      · exact h c hc
      · cases List.mem_singleton.1 hc
        exact hnew
  | start => exact h
  | finish _ _ hqueue =>
      intro c hc
      exact h c (hqueue ▸ List.mem_cons_of_mem _ hc)

lemma Sound.runsWell (h : s.Sound) : s.RunsWell :=
  fun _ c hc => h c (List.mem_of_mem_head? hc)

/-- With good pointers `Exec` can do what it is for. -/
lemma Denotes.exec (h : s.Denotes c) : ∃ call, s.exec c = some call := by
  cases c with
  | read mem blockingRead | write mem memObject blockingWrite =>
      obtain ⟨m, hm⟩ := (h.1 mem rfl).deref
      exact ⟨_, by rw [Backlog.exec, hm, Option.map_some]⟩
  | kernel kernel isNDRange argMem =>
      obtain ⟨k, hk⟩ := (h.2 kernel rfl).deref
      exact ⟨_, by rw [Backlog.exec, hk, Option.map_some]⟩
  | copyBuffer srcMem dstMem => exact ⟨_, rfl⟩
  | releaseMemObject mem => exact ⟨_, rfl⟩
  | finish => exact ⟨_, rfl⟩

lemma sound_of_keeps {ls : List BacklogStep} (hkeeps : (backlog G).AllSteps Keeps init ls)
    (hrun : (backlog G).exec init ls = some s) : s.Sound :=
  (backlog G).invariant_of_allSteps (I := Sound) (fun c hc => by cases hc)
    (fun _ _ _ hs hl hstep => hs.step hl (moves_of_step hstep)) hkeeps hrun

/-- A command that runs finds the entries it was queued for, in every run that moves no vector
while a command that points into it is queued. -/
theorem queued_command_denotes {ls : List BacklogStep}
    (hkeeps : (backlog G).AllSteps Keeps init ls) (hrun : (backlog G).exec init ls = some s)
    (hrunning : s.running = true) (hhead : s.queue.head? = some c) :
    s.Denotes c ∧ ∃ call, s.exec c = some call := by
  have hc : s.Denotes c := (sound_of_keeps hkeeps hrun).runsWell hrunning c hhead
  exact ⟨hc, hc.exec⟩

/-- With room for the kernel, and no other buffer, the read finds its entry. -/
theorem queued_command_denotes_read :
    ∃ s, (backlog .double).exec init [.createBuffer 7 4, .enqueueReadBuffer 0 false,
        .createKernel 9, .start] = some s ∧
      s.Denotes (.read ⟨1, 0⟩ false) ∧ ∃ call, s.exec (.read ⟨1, 0⟩ false) = some call := by
  obtain ⟨s, hrun, hrunning, hhead⟩ : ∃ s, (backlog .double).exec init
      [.createBuffer 7 4, .enqueueReadBuffer 0 false, .createKernel 9, .start] = some s ∧
      s.running = true ∧ s.queue.head? = some (.read ⟨1, 0⟩ false) := ⟨_, rfl, rfl, rfl⟩
  exact ⟨s, hrun, queued_command_denotes ((backlog .double).allSteps_of_checkSteps (by decide))
    hrun hrunning hhead⟩

/-- The second buffer moves the first while a read of it is queued. -/
theorem queued_read_dangles :
    ¬ ∀ (ls : List BacklogStep) (s : Backlog), (backlog .double).exec init ls = some s →
      s.RunsWell := by
  intro h
  obtain ⟨s, hrun, hstale⟩ : ∃ s, (backlog .double).exec init [.createBuffer 7 4,
      .enqueueReadBuffer 0 false, .createBuffer 8 4, .start] = some s ∧ ¬ s.RunsWell :=
    ⟨_, rfl, fun hwell => absurd (hwell rfl _ rfl) (by decide)⟩
  exact hstale (h _ s hrun)

/-! ## Stale pointers stay stale -/

/-- Pointers are to storage the vectors have, or have had. -/
def Past (s : Backlog) (c : HeldCommand) : Prop :=
  (∀ r ∈ c.mem?, r.generation ≤ s.mems.generation) ∧
    ∀ r ∈ c.kernel?, r.generation ≤ s.kernels.generation

lemma Denotes.past (h : s.Denotes c) : s.Past c :=
  ⟨fun r hr => (h.1 r hr).1.le, fun r hr => (h.2 r hr).1.le⟩

lemma past_step (h : ∀ c ∈ s.queue, s.Past c) (hmoves : s.Moves G l s') :
    ∀ c ∈ s'.queue, s'.Past c := by
  intro c hc
  cases hmoves with
  | createBuffer m =>
      exact ⟨fun r hr => ((h c hc).1 r hr).trans Storage.generation_le_push, (h c hc).2⟩
  | createKernel k =>
      exact ⟨(h c hc).1, fun r hr => ((h c hc).2 r hr).trans Storage.generation_le_push⟩
  | push _ hnew =>
      rcases List.mem_append.1 hc with hc | hc
      · exact h c hc
      · cases List.mem_singleton.1 hc
        exact hnew.past
  | start => exact h c hc
  | finish _ _ hqueue => exact h c (hqueue ▸ List.mem_cons_of_mem _ hc)

lemma Stale.not_denotes (h : s.Stale c) : ¬ s.Denotes c := by
  rintro ⟨hmem, hkernel⟩
  rcases h with ⟨r, hr, hstale⟩ | ⟨r, hr, hstale⟩
  · exact hstale.not_denotes (hmem r hr)
  · exact hstale.not_denotes (hkernel r hr)

lemma Stale.step (h : s.Stale c) (hmoves : s.Moves G l s') : s'.Stale c := by
  cases hmoves with
  | createBuffer m => exact h.imp_left fun ⟨r, hr, hstale⟩ => ⟨r, hr, hstale.push⟩
  | createKernel k => exact h.imp_right fun ⟨r, hr, hstale⟩ => ⟨r, hr, hstale.push⟩
  | push | start | finish => exact h

/-- The worker does not get past a stale command that has yet to run well. -/
lemma Stale.mem_step (h : s.Stale c) (hc : c ∈ s.queue) (hwell : s.RunsWell)
    (hmoves : s.Moves G l s') : c ∈ s'.queue := by
  cases hmoves with
  | createBuffer m => exact hc
  | createKernel k => exact hc
  | push => exact List.mem_append_left _ hc
  | start => exact hc
  | finish _ hrunning hqueue =>
      rw [hqueue] at hc
      rcases List.mem_cons.1 hc with rfl | hc
      · exact absurd (hwell hrunning c (by rw [hqueue]; rfl)) h.not_denotes
      · exact hc

/-- A step that does not meet the condition leaves a stale command behind. -/
lemma exists_stale (h : ∀ c ∈ s.queue, s.Past c) (hkeeps : ¬ s.Keeps l)
    (hmoves : s.Moves G l s') : ∃ c ∈ s'.queue, s'.Stale c := by
  cases hmoves with
  | createBuffer m =>
      simp only [Keeps, not_forall] at hkeeps
      obtain ⟨hfull, c, hc, hmem⟩ := hkeeps
      obtain ⟨r, hr⟩ := Option.ne_none_iff_exists'.1 hmem
      exact ⟨c, hc, .inl ⟨r, hr, Storage.stale_push ((h c hc).1 r hr) hfull⟩⟩
  | createKernel k =>
      simp only [Keeps, not_forall] at hkeeps
      obtain ⟨hfull, c, hc, hkernel⟩ := hkeeps
      obtain ⟨r, hr⟩ := Option.ne_none_iff_exists'.1 hkernel
      exact ⟨c, hc, .inr ⟨r, hr, Storage.stale_push ((h c hc).2 r hr) hfull⟩⟩
  | push hl => exact absurd hl hkeeps
  | start => exact absurd trivial hkeeps
  | finish => exact absurd trivial hkeeps

/-- Once the queue is empty, commands that all ran well did so in a run that met the condition. -/
lemma keeps_of_runsWell {ls : List BacklogStep} (hrun : (backlog G).exec init ls = some s)
    (hdone : s.queue = []) (hwell : (backlog G).AllSteps (fun s _ => s.RunsWell) init ls) :
    (backlog G).AllSteps Keeps init ls := by
  have hinv : (∀ c ∈ s.queue, s.Past c) ∧
      ((backlog G).AllSteps Keeps init ls ∨ ∃ c ∈ s.queue, s.Stale c) := by
    refine (backlog G).exec_induction (P := fun ls s =>
      (backlog G).AllSteps (fun s _ => s.RunsWell) init ls → (∀ c ∈ s.queue, s.Past c) ∧
        ((backlog G).AllSteps Keeps init ls ∨ ∃ c ∈ s.queue, s.Stale c)) ?_ ?_ hrun hwell
    · exact fun _ => ⟨fun c hc => (by cases hc), .inl ((backlog G).allSteps_nil _ _)⟩
    · intro ls s l s' hs ih hstep hwell
      obtain ⟨hbefore, hlast⟩ := (backlog G).allSteps_snoc_iff.1 hwell
      obtain ⟨hpast, hor⟩ := ih hbefore
      have hmoves := moves_of_step hstep
      refine ⟨past_step hpast hmoves, ?_⟩
      rcases hor with hkeeps | ⟨c, hc, hstale⟩
      · by_cases hl : s.Keeps l
        · refine .inl ((backlog G).allSteps_snoc_iff.2 ⟨hkeeps, fun t ht => ?_⟩)
          rw [hs] at ht
          cases ht
          exact hl
        · exact .inr (exists_stale hpast hl hmoves)
      · exact .inr ⟨c, hstale.mem_step hc (hlast s hs) hmoves, hstale.step hmoves⟩
  rcases hinv.2 with hkeeps | ⟨c, hc, -⟩
  · exact hkeeps
  · rw [hdone] at hc
    cases hc

/-- The condition is exact for the runs after which nothing is queued. -/
theorem runsWell_iff_keeps {ls : List BacklogStep} (hrun : (backlog G).exec init ls = some s)
    (hdone : s.queue = []) :
    (backlog G).AllSteps (fun s _ => s.RunsWell) init ls ↔
      (backlog G).AllSteps Keeps init ls := by
  refine ⟨keeps_of_runsWell hrun hdone, fun hkeeps => ?_⟩
  exact (backlog G).allSteps_of_invariant (I := Sound) (fun c hc => by cases hc)
    (fun _ _ _ hs hl hstep => hs.step hl (moves_of_step hstep)) (fun _ _ hs => hs.runsWell) hkeeps

/-- The read that finds its entry, to its end. -/
theorem runsWell_iff_keeps_read :
    (backlog .double).AllSteps (fun s _ => s.RunsWell) init
      [.createBuffer 7 4, .enqueueReadBuffer 0 false, .createKernel 9, .start, .finish] := by
  obtain ⟨s, hrun, hdone⟩ : ∃ s, (backlog .double).exec init
      [.createBuffer 7 4, .enqueueReadBuffer 0 false, .createKernel 9, .start, .finish] = some s ∧
      s.queue = [] := ⟨_, rfl, rfl⟩
  exact (runsWell_iff_keeps hrun hdone).2 ((backlog .double).allSteps_of_checkSteps (by decide))

end Backlog
end ElasticFramework
