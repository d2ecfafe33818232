import ElasticFramework.Construction.CpuTime
import ElasticFramework.Properties.Tokens

/-!
# The clock of the scheduler

`GetCPUTime` weighs a second as a thousand milliseconds and a microsecond as a thousand
nanoseconds: within one second it runs a thousand times as fast as across seconds, and falls back
by nearly a thousand seconds when a second is over.

`Started` is what the times of the scheduler rest on: a command that a worker holds was given an
earlier reading, and a queue in use has the command of its worker in front.  So the times are
differences of readings in time order, and not negative exactly when the clock does not fall.
-/

namespace ElasticFramework

open Timeval

section Machine

variable {K W T : Type*} [Arith K] [DecidableEq W] [DecidableEq T] {clock : Timeval → K}
  {s s' : Clocked K W T} {base base' : State K W T}

/-- The command a worker has picked and not accounted yet. -/
def WorkerPc.command : WorkerPc K → Option (Command K)
  | .picked _ comm | .executing _ comm | .executed _ comm _ => some comm
  | _ => none

omit [Arith K] in
/-- A command is of the worker that has moved, or was there before. -/
lemma WorkerPc.command_update_cases {worker : W → WorkerPc K} {w w' : W} {pc : WorkerPc K}
    {comm : Command K} (h : (Function.update worker w pc w').command = some comm) :
    w' = w ∧ pc.command = some comm ∨ (worker w').command = some comm := by
  by_cases hw : w' = w
  · subst hw
    rw [Function.update_self] at h
    exact Or.inl ⟨rfl, h⟩
  · rw [Function.update_of_ne hw] at h
    exact Or.inr h

omit [Arith K] in
lemma WorkerPc.command_update {worker : W → WorkerPc K} {w w' : W} {pc : WorkerPc K}
    {comm : Command K} (hpc : pc.command = none ∨ pc.command = (worker w).command)
    (h : (Function.update worker w pc w').command = some comm) :
    (worker w').command = some comm := by
  rcases command_update_cases h with ⟨rfl, hcomm⟩ | hold
  · rcases hpc with hpc | hpc
    · rw [hpc] at hcomm
      cases hcomm
    · rwa [← hpc]
  · exact hold

/-- A worker comes by a command with `pick` only. -/
lemma command_of_step {l : Label K W T} (hs : Step base l base') (hl : ∀ w, l ≠ .pick w) {w : W}
    {comm : Command K} (h : (base'.worker w).command = some comm) :
    (base.worker w).command = some comm := by
  cases hs with
  | take hpc hsem => exact WorkerPc.command_update (Or.inl rfl) h
  | @check w₀ hpc =>
      refine WorkerPc.command_update (Or.inl ?_) h
      split <;> rfl
  | giveBack hpc => exact WorkerPc.command_update (Or.inl rfl) h
  | pick hpc hlock hq hfront => exact absurd rfl (hl _)
  | @beginExec w₀ q comm₀ hpc =>
      rw [State.goto, State.exec_worker] at h
      exact WorkerPc.command_update (Or.inr (by rw [hpc]; rfl)) h
  | endExec hpc => exact WorkerPc.command_update (Or.inr (by rw [hpc]; rfl)) h
  | account hpc hlock => exact WorkerPc.command_update (Or.inl rfl) h
  | pop hpc => exact WorkerPc.command_update (Or.inl rfl) h
  | testEmpty hpc hempty => exact WorkerPc.command_update (Or.inl rfl) h
  | testNonempty hpc hempty => exact WorkerPc.command_update (Or.inl rfl) h
  | clearSkip hpc => exact WorkerPc.command_update (Or.inl rfl) h
  | _ => exact h

omit [Arith K] [DecidableEq W] [DecidableEq T] in
/-- With the lock free, the command in front of a queue in use is a worker's. -/
lemma Coherent.exists_command {q : ℕ} (h : Coherent base) (hlock : base.procLock = none)
    (hq : (base.node.que q).skip = true) :
    ∃ w comm rest, (base.worker w).command = some comm ∧
      (base.node.que q).queue = comm :: rest := by
  obtain ⟨w, hw⟩ := h.claims.claimed q hq
  obtain ⟨-, -, hfits⟩ := h.claims.claim w q hw
  have hk := h.lock
  rw [hlock] at hk
  have hout := hk.not_inEpilogue w
  have hhead : ∀ comm, (base.node.que q).queue.head? = some comm →
      ∃ rest, (base.node.que q).queue = comm :: rest := by
    intro comm hcomm
    exact ⟨_, (List.cons_head?_tail hcomm).symm⟩
  cases hpc : base.worker w with
  | picked p comm =>
      rw [hpc] at hfits
      exact ⟨w, comm, _, by rw [hpc]; rfl, (hhead comm hfits).choose_spec⟩
  | executing p comm =>
      rw [hpc] at hfits
      exact ⟨w, comm, _, by rw [hpc]; rfl, (hhead comm hfits).choose_spec⟩
  | executed p comm u =>
      rw [hpc] at hfits
      exact ⟨w, comm, _, by rw [hpc]; rfl, (hhead comm hfits).choose_spec⟩
  | accounted p => rw [hpc] at hout; cases hout
  | popped p => rw [hpc] at hout; cases hout
  | tested p b => rw [hpc] at hout; cases hout
  | _ => rw [hpc] at hw; cases hw

/-- The start times of the commands that workers hold are among the readings. -/
structure Started (clock : Timeval → K) (readings : List Timeval) (s : Clocked K W T) : Prop where
  coherent : Coherent s.base
  started : ∀ w comm, (s.base.worker w).command = some comm →
    ∃ time ∈ readings, s.startTime comm.ptr = clock time

omit [DecidableEq W] [DecidableEq T] in
lemma Started.init : Started clock [] (Clocked.init : Clocked K W T) where
  coherent := Coherent.init
  started w comm h := by cases h

omit [Arith K] [DecidableEq W] [DecidableEq T] in
lemma Started.mono {readings readings' : List Timeval} (h : Started clock readings s)
    (hsub : readings ⊆ readings') : Started clock readings' s where
  coherent := h.coherent
  started w comm hw :=
    let ⟨time, hmem, heq⟩ := h.started w comm hw
    ⟨time, hsub hmem, heq⟩

omit [Arith K] [DecidableEq W] [DecidableEq T] in
/-- The other invariants do not look at the sums. -/
lemma Coherent.withSums (h : Coherent base) (basedInnerProduct timeLengSquare : K) :
    Coherent (base.withNode { base.node with
      basedInnerProduct := basedInnerProduct, timeLengSquare := timeLengSquare }) where
  linked := h.linked.congr rfl rfl rfl rfl (fun _ => rfl) fun _ => rfl
  lock := h.lock
  claims := ⟨h.claims.claim, h.claims.unique, h.claims.claimed⟩
  sessions := ⟨h.sessions.vmMem, h.sessions.vmInj, h.sessions.queueMem, h.sessions.queueInj,
    h.sessions.drained⟩

/-- A pick that goes by the sums with the jitter is a pick for the threads and the objects. -/
lemma Coherent.pick (h : Coherent s.base) {readings : List Timeval} {w : W} {q : ℕ}
    {comm : Command K} {rest : List (Command K)} (hpc : s.base.worker w = .admitted)
    (hlock : s.base.procLock = none)
    (hq : (s.jittered clock readings).inOrderSchedule = some q)
    (hfront : (s.base.node.que q).queue = comm :: rest) :
    Coherent ((s.base.withNode (s.base.node.setSkip q true)).goto w (.picked q comm)) := by
  have hjittered : Coherent (s.base.withNode (s.jittered clock readings)) := h.withSums _ _
  have hpicked := hjittered.step (.pick hpc hlock hq hfront)
  exact hpicked.withSums s.base.node.basedInnerProduct s.base.node.timeLengSquare

/-! ## What a step does -/

lemma Clocked.other_inv {l : Label K W T} (h : s.step clock (.other l) = some s') :
    l.timed = false ∧ ∃ base, Step s.base l base ∧ s' = { s with base := base } := by
  rw [Clocked.step] at h
  split at h
  · cases h
  · rename_i hl
    obtain ⟨base, hbase, rfl⟩ := Option.map_eq_some_iff.1 h
    exact ⟨Bool.eq_false_iff.2 hl, base, step_inv hbase, rfl⟩

lemma Clocked.pick_inv {w : W} {readings : List Timeval} {now : Timeval}
    (h : s.step clock (.pick w readings now) = some s') :
    ∃ q comm rest, s.base.worker w = .admitted ∧ s.base.procLock = none ∧
      (s.jittered clock readings).inOrderSchedule = some q ∧
      (s.base.node.que q).queue = comm :: rest ∧
      s' = { base := (s.base.withNode (s.base.node.setSkip q true)).goto w (.picked q comm)
             startTime := Function.update s.startTime comm.ptr (clock now) } := by
  rw [Clocked.step] at h
  split at h
  · split at h
    · split at h
      · cases h
      · split at h
        · cases h
        · cases h
          exact ⟨_, _, _, ‹_›, ‹_›, ‹_›, ‹_›, rfl⟩
    · cases h
  · cases h

/-- A worker picks the queue that goes by the sums with the jitter. -/
lemma Clocked.step_pick {w : W} {readings : List Timeval} {now : Timeval} {q : ℕ}
    {comm : Command K} {rest : List (Command K)} (hpc : s.base.worker w = .admitted)
    (hlock : s.base.procLock = none) (hlen : readings.length = s.base.node.skipped.length)
    (hq : (s.jittered clock readings).inOrderSchedule = some q)
    (hfront : (s.base.node.que q).queue = comm :: rest) :
    s.step clock (.pick w readings now) = some
      { base := (s.base.withNode (s.base.node.setSkip q true)).goto w (.picked q comm)
        startTime := Function.update s.startTime comm.ptr (clock now) } := by
  simp [Clocked.step, hpc, hlock, hlen, hq, hfront]

lemma Clocked.account_inv {w : W} {now : Timeval} (h : s.step clock (.account w now) = some s') :
    ∃ q comm base base', s.base.worker w = .executing q comm ∧
      Step s.base (.endExec w (s.usedTime clock comm now)) base ∧ Step base (.account w) base' ∧
      s' = { s with base := base' } := by
  rw [Clocked.step] at h
  split at h
  · obtain ⟨base', hbase', rfl⟩ := Option.map_eq_some_iff.1 h
    obtain ⟨base, hbase, hbase'⟩ := Option.bind_eq_some_iff.1 hbase'
    exact ⟨_, _, base, base', ‹_›, step_inv hbase, step_inv hbase', rfl⟩
  · cases h

/-- A step adds its readings to those that start times are from. -/
lemma Started.step {readings : List Timeval} {l : ClockedStep K W T}
    (h : Started clock readings s) (hs : s.step clock l = some s') :
    Started clock (readings ++ l.readings) s' := by
  cases l with
  | other l =>
      obtain ⟨hl, base, hbase, rfl⟩ := Clocked.other_inv hs
      have hpick : ∀ w, l ≠ .pick w := by
        rintro w rfl
        cases hl
      rw [ClockedStep.readings, List.append_nil]
      exact ⟨h.coherent.step hbase, fun w comm hw =>
        h.started w comm (command_of_step hbase hpick hw)⟩
  | pick w readings' now =>
      obtain ⟨q, comm, rest, hpc, hlock, hq, hfront, rfl⟩ := Clocked.pick_inv hs
      refine ⟨h.coherent.pick hpc hlock hq hfront, fun w' comm' hw' => ?_⟩
      by_cases hptr : comm'.ptr = comm.ptr
      · refine ⟨now, by simp [ClockedStep.readings], ?_⟩
        show Function.update s.startTime comm.ptr (clock now) comm'.ptr = clock now
        rw [hptr, Function.update_self]
      · have hold : (s.base.worker w').command = some comm' := by
          rcases WorkerPc.command_update_cases hw' with ⟨-, hcomm⟩ | hold
          · cases hcomm
            exact absurd rfl hptr
          · exact hold
        obtain ⟨time, hmem, heq⟩ := h.started w' comm' hold
        refine ⟨time, List.mem_append_left _ hmem, ?_⟩
        show Function.update s.startTime comm.ptr (clock now) comm'.ptr = clock time
        rwa [Function.update_of_ne hptr]
  | account w now =>
      obtain ⟨q, comm, base, base', hpc, hend, haccount, rfl⟩ := Clocked.account_inv hs
      have hstarted : Started clock readings { s with base := base' } :=
        ⟨(h.coherent.step hend).step haccount, fun w' comm' hw' =>
          h.started w' comm' (command_of_step hend (fun _ => by simp)
            (command_of_step haccount (fun _ => by simp) hw'))⟩
      exact hstarted.mono (List.subset_append_left _ _)

/-- A time is a reading less an earlier one. -/
lemma Started.times {readings : List Timeval} {l : ClockedStep K W T}
    (h : Started clock readings s) (hs : s.step clock l = some s') {x : K}
    (hx : x ∈ s.times clock l) :
    ∃ time ∈ readings, ∃ time' ∈ l.readings, x = clock time' - clock time := by
  cases l with
  | other l => cases hx
  | pick w readings' now =>
      obtain ⟨q, comm, rest, hpc, hlock, -, -, -⟩ := Clocked.pick_inv hs
      obtain ⟨_, hmap, rfl⟩ := List.mem_map.1 hx
      obtain ⟨⟨p, time'⟩, hzip, rfl⟩ := List.mem_map.1 hmap
      obtain ⟨hskipped, hmem'⟩ := List.of_mem_zip hzip
      have hskip := (List.mem_filter.1 hskipped).2
      obtain ⟨w', comm', rest', hw', hqueue⟩ := h.coherent.exists_command hlock hskip
      obtain ⟨time, hmem, heq⟩ := h.started w' comm' hw'
      refine ⟨time, hmem, time', List.mem_append_left _ hmem', ?_⟩
      have hfront : s.frontStartTime p = s.startTime comm'.ptr := by
        unfold Clocked.frontStartTime
        rw [hqueue]
      show clock time' - s.frontStartTime p = _
      rw [hfront, heq]
  | account w now =>
      obtain ⟨q, comm, base, base', hpc, -, -, -⟩ := Clocked.account_inv hs
      rw [Clocked.times, hpc] at hx
      obtain rfl := List.mem_singleton.1 hx
      obtain ⟨time, hmem, heq⟩ := h.started w comm (by rw [hpc]; rfl)
      exact ⟨time, hmem, now, List.mem_singleton_self now, by rw [Clocked.usedTime, heq]⟩

/-! ## Runs -/

/-- The readings of a run. -/
def readingsOf (ls : List (ClockedStep K W T)) : List Timeval := ls.flatMap ClockedStep.readings

/-- The times the scheduler computes in a run. -/
def timesOf (clock : Timeval → K) (ls : List (ClockedStep K W T)) : List K :=
  (cpuTimeNode clock).trace (fun s l => s.times clock l) Clocked.init ls

lemma started_of_exec {ls : List (ClockedStep K W T)}
    (h : (cpuTimeNode clock).exec Clocked.init ls = some s) : Started clock (readingsOf ls) s := by
  refine (cpuTimeNode clock).exec_induction (P := fun ls s => Started clock (readingsOf ls) s)
    Started.init ?_ h
  intro ls s l s' _ ih hs
  rw [readingsOf, List.flatMap_append, List.flatMap_singleton]
  exact ih.step hs

/-- **Every time that the scheduler computes is a reading less an earlier one.** -/
theorem times_are_differences {ls : List (ClockedStep K W T)}
    (h : (cpuTimeNode clock).exec Clocked.init ls = some s) {x : K} (hx : x ∈ timesOf clock ls) :
    ∃ time time', [time, time'].Sublist (readingsOf ls) ∧ x = clock time' - clock time := by
  refine (cpuTimeNode clock).exec_induction (P := fun ls _ => ∀ x ∈ timesOf clock ls,
    ∃ time time', [time, time'].Sublist (readingsOf ls) ∧ x = clock time' - clock time)
    (by simp [timesOf]) ?_ h x hx
  intro ls s l s' hs ih hl x hx
  rw [timesOf, (cpuTimeNode clock).trace_snoc _ l hs] at hx
  rw [readingsOf, List.flatMap_append, List.flatMap_singleton]
  rcases List.mem_append.1 hx with hx | hx
  · obtain ⟨time, time', hsub, heq⟩ := ih x hx
    exact ⟨time, time', hsub.trans (List.sublist_append_left _ _), heq⟩
  · obtain ⟨time, hmem, time', hmem', heq⟩ := (started_of_exec hs).times hl hx
    exact ⟨time, time',
      (List.singleton_sublist.2 hmem).append (List.singleton_sublist.2 hmem'), heq⟩

end Machine

/-! ## The clock -/

/-- The clock of a set of readings is a clock: their differences are the elapsed microseconds times
one positive number, and no run that has its readings from the set, in time order, comes to a
negative time. -/
structure ClockOn (W T : Type*) [DecidableEq W] [DecidableEq T] (R : Set Timeval) : Prop where
  scale : ∃ c : ℝ, 0 < c ∧ ∀ time ∈ R, ∀ time' ∈ R, time ≤ time' →
    getCPUTime time' - getCPUTime time = (elapsed time time' : ℝ) * c
  times_nonneg : ∀ (ls : List (ClockedStep ℝ W T)) (s : Clocked ℝ W T),
    (cpuTimeNode getCPUTime).exec Clocked.init ls = some s → (readingsOf ls).Pairwise (· ≤ ·) →
      (∀ time ∈ readingsOf ls, time ∈ R) → ∀ x ∈ timesOf getCPUTime ls, 0 ≤ x

section Clock

variable {R : Set Timeval} {c : ℝ}

lemma cast_elapsed (time time' : Timeval) : (elapsed time time' : ℝ) =
    ((time'.tvSec : ℝ) - time.tvSec) * 1000000 + ((time'.tvUsec : ℝ) - time.tvUsec) := by
  rw [elapsed, micros, micros]
  push_cast
  ring

lemma getCPUTime_sub (time time' : Timeval) : (getCPUTime time' - getCPUTime time : ℝ) =
    ((time'.tvSec : ℝ) - time.tvSec) * 1000000 + ((time'.tvUsec : ℝ) - time.tvUsec) * 1000 := by
  rw [getCPUTime, getCPUTime]
  ring

lemma elapsed_nonneg {time time' : Timeval} (h : time ≤ time') :
    (0 : ℝ) ≤ (elapsed time time' : ℝ) := Int.cast_nonneg (sub_nonneg.2 h)

/-- One number serves both orders. -/
lemma scale_all (h : ∀ time ∈ R, ∀ time' ∈ R, time ≤ time' →
      (getCPUTime time' - getCPUTime time : ℝ) = (elapsed time time' : ℝ) * c)
    {time time' : Timeval} (ht : time ∈ R) (ht' : time' ∈ R) :
    ((time'.tvSec : ℝ) - time.tvSec) * 1000000 + ((time'.tvUsec : ℝ) - time.tvUsec) * 1000 =
      (((time'.tvSec : ℝ) - time.tvSec) * 1000000 + ((time'.tvUsec : ℝ) - time.tvUsec)) * c := by
  rcases le_total time.micros time'.micros with hle | hle
  · rw [← getCPUTime_sub, ← cast_elapsed]
    exact h time ht time' ht' hle
  · have hback := h time' ht' time ht hle
    rw [getCPUTime_sub, cast_elapsed] at hback
    linarith only [hback]

/-- Above a thousand the microseconds would have to make up for more than a second. -/
lemma sec_le_of_scale (hc : 1000 ≤ c) {time time' : Timeval}
    (h : ((time'.tvSec : ℝ) - time.tvSec) * 1000000 + ((time'.tvUsec : ℝ) - time.tvUsec) * 1000 =
      (((time'.tvSec : ℝ) - time.tvSec) * 1000000 + ((time'.tvUsec : ℝ) - time.tvUsec)) * c) :
    time'.tvSec ≤ time.tvSec := by
  by_contra hlt
  have hsec : (1 : ℝ) ≤ (time'.tvSec : ℝ) - time.tvSec := by
    have hone : (1 : ℤ) ≤ time'.tvSec - time.tvSec := by omega
    exact_mod_cast hone
  have husec : (-1000000 : ℝ) < (time'.tvUsec : ℝ) - time.tvUsec := by
    have hlt := time.tvUsec_lt
    have hneg : (-1000000 : ℤ) < (time'.tvUsec : ℤ) - time.tvUsec := by omega
    exact_mod_cast hneg
  have hsecs : (c - 1) * 1 ≤ (c - 1) * ((time'.tvSec : ℝ) - time.tvSec) :=
    mul_le_mul_of_nonneg_left hsec (by linarith only [hc])
  have husecs : (c - 1000) * -1000000 ≤ (c - 1000) * ((time'.tvUsec : ℝ) - time.tvUsec) :=
    mul_le_mul_of_nonneg_left husec.le (by linarith only [hc])
  linarith only [h, hsecs, husecs]

/-- The differences are the elapsed time times a number, if the readings are of one second, or on a
line that does not fall too steeply. -/
lemma exists_scale_iff (R : Set Timeval) :
    (∃ c : ℝ, 0 < c ∧ ∀ time ∈ R, ∀ time' ∈ R, time ≤ time' →
        getCPUTime time' - getCPUTime time = (elapsed time time' : ℝ) * c) ↔
      (∃ sec, ∀ time ∈ R, time.tvSec = sec) ∨
        ∃ m : ℝ, -1000 < m ∧ ∀ time ∈ R, ∀ time' ∈ R,
          (time'.tvUsec : ℝ) - time.tvUsec = m * ((time'.tvSec : ℝ) - time.tvSec) := by
  constructor
  · rintro ⟨c, hpos, hscale⟩
    by_cases hc : c < 1000
    · refine Or.inr ⟨1000000 * (c - 1) / (1000 - c), ?_, fun time ht time' ht' => ?_⟩
      · rw [lt_div_iff₀ (by linarith only [hc])]
        linarith only [hpos]
      · have heq := scale_all hscale ht ht'
        have hne : (1000 - c : ℝ) ≠ 0 := by
          intro h
          linarith only [h, hc]
        rw [div_mul_eq_mul_div, eq_div_iff hne]
        linarith only [heq]
    · rcases Set.eq_empty_or_nonempty R with rfl | ⟨time, ht⟩
      · exact Or.inl ⟨0, fun _ h => absurd h (Set.notMem_empty _)⟩
      · refine Or.inl ⟨time.tvSec, fun time' ht' => le_antisymm ?_ ?_⟩
        · exact sec_le_of_scale (not_lt.1 hc) (scale_all hscale ht ht')
        · exact sec_le_of_scale (not_lt.1 hc) (scale_all hscale ht' ht)
  · rintro (⟨sec, hsec⟩ | ⟨m, hm, husec⟩)
    · refine ⟨1000, by norm_num, fun time ht time' ht' _ => ?_⟩
      rw [getCPUTime_sub, cast_elapsed, hsec time ht, hsec time' ht']
      ring
    · have hden : (0 : ℝ) < 1000000 + m := by linarith only [hm]
      refine ⟨(1000000 + 1000 * m) / (1000000 + m), div_pos (by linarith only [hm]) hden,
        fun time ht time' ht' _ => ?_⟩
      rw [getCPUTime_sub, cast_elapsed, husec time ht time' ht', mul_div_assoc',
        eq_div_iff hden.ne']
      ring

end Clock

/-- **The clock is a clock for readings of one second, and for readings whose microseconds change
in proportion to the seconds and fall by less than a thousand a second.** -/
theorem clockOn_iff (W T : Type*) [DecidableEq W] [DecidableEq T] (R : Set Timeval) :
    ClockOn W T R ↔ (∃ sec, ∀ time ∈ R, time.tvSec = sec) ∨
      ∃ m : ℝ, -1000 < m ∧ ∀ time ∈ R, ∀ time' ∈ R,
        (time'.tvUsec : ℝ) - time.tvUsec = m * ((time'.tvSec : ℝ) - time.tvSec) := by
  rw [← exists_scale_iff]
  constructor
  · exact fun h => h.scale
  · intro hscale
    refine ⟨hscale, fun ls s hs hsorted hR x hx => ?_⟩
    obtain ⟨time, time', hsub, rfl⟩ := times_are_differences hs hx
    obtain ⟨c, hpos, hc⟩ := hscale
    have hle : time ≤ time' := List.pairwise_iff_forall_sublist.1 hsorted hsub
    rw [hc time (hR _ (hsub.subset (by simp))) time' (hR _ (hsub.subset (by simp))) hle]
    exact mul_nonneg (elapsed_nonneg hle) hpos.le

/-! ## A command that takes from one reading to another -/

/-- With no queue in use there is no jitter. -/
lemma Clocked.jittered_nil {W T : Type*} (s : Clocked ℝ W T) :
    s.jittered getCPUTime [] = s.base.node := by
  have hjitter : s.jitter (getCPUTime : Timeval → ℝ) [] = [] := by
    rw [Clocked.jitter, List.zip_nil_right, List.map_nil]
  simp only [Clocked.jittered, hjitter, List.foldl_nil, add_zero]

/-- The one client's command is picked at one reading and accounted at another. -/
def oneCommand (time time' : Timeval) : List (ClockedStep ℝ Unit Unit) :=
  oneClientStart.map .other ++ [.pick () [] time, .other (.beginExec ()), .account () time']

lemma readingsOf_oneCommand (time time' : Timeval) :
    readingsOf (oneCommand time time') = [time, time'] := rfl

/-- What the scheduler computes is the difference. -/
lemma exec_oneCommand (time time' : Timeval) :
    (∃ s, (cpuTimeNode getCPUTime).exec Clocked.init (oneCommand time time') = some s) ∧
      timesOf getCPUTime (oneCommand time time') = [getCPUTime time' - getCPUTime time] := by
  let M := cpuTimeNode (W := Unit) (T := Unit) (getCPUTime : Timeval → ℝ)
  let s : Clocked ℝ Unit Unit := { base := oneClientState, startTime := fun _ => 0 }
  have hstart : M.exec Clocked.init (oneClientStart.map .other) = some s := rfl
  have hpc : s.base.worker () = .admitted := rfl
  have hfront : (s.base.node.que 0).queue = [Command.new 0 .write] := rfl
  have hq : (s.jittered getCPUTime []).inOrderSchedule = some 0 := by
    rw [s.jittered_nil]
    exact oneClientState_inOrderSchedule
  have hpick : M.step s (.pick () [] time) = some _ := Clocked.step_pick hpc rfl rfl hq hfront
  refine ⟨⟨_, M.exec_append_iff.2 ⟨s, hstart, M.exec_cons_iff.2 ⟨_, hpick, rfl⟩⟩⟩, ?_⟩
  rw [timesOf, oneCommand, M.trace_append _ _ hstart, Machine.trace, hpick]
  rfl

/-- No time is negative exactly when the clock does not fall: when the microseconds fall by no more
than a thousand for each second. -/
theorem times_nonneg_iff (R : Set Timeval) :
    (∀ (ls : List (ClockedStep ℝ Unit Unit)) (s : Clocked ℝ Unit Unit),
      (cpuTimeNode getCPUTime).exec Clocked.init ls = some s → (readingsOf ls).Pairwise (· ≤ ·) →
        (∀ time ∈ readingsOf ls, time ∈ R) → ∀ x ∈ timesOf getCPUTime ls, 0 ≤ x) ↔
      ∀ time ∈ R, ∀ time' ∈ R, time ≤ time' →
        (time.tvUsec : ℤ) - time'.tvUsec ≤ 1000 * (time'.tvSec - time.tvSec) := by
  have hsub : ∀ time time' : Timeval, (0 : ℝ) ≤ getCPUTime time' - getCPUTime time ↔
      (time.tvUsec : ℤ) - time'.tvUsec ≤ 1000 * (time'.tvSec - time.tvSec) := by
    intro time time'
    rw [getCPUTime_sub, ← Int.cast_le (R := ℝ)]
    push_cast
    constructor <;> intro h <;> linarith only [h]
  constructor
  · intro h time ht time' ht' hle
    obtain ⟨⟨s, hs⟩, htimes⟩ := exec_oneCommand time time'
    rw [← hsub]
    refine h _ s hs ?_ ?_ _ (htimes ▸ List.mem_singleton_self _)
    · rw [readingsOf_oneCommand]
      simpa using hle
    · rw [readingsOf_oneCommand]
      simpa using ⟨ht, ht'⟩
  · intro h ls s hs hsorted hR x hx
    obtain ⟨time, time', hsublist, rfl⟩ := times_are_differences hs hx
    rw [hsub]
    exact h time (hR _ (hsublist.subset (by simp))) time' (hR _ (hsublist.subset (by simp)))
      (List.pairwise_iff_forall_sublist.1 hsorted hsublist)

/-- The last microsecond of a second and the first of the next. -/
def lastMicrosecond : Timeval := ⟨0, 999999, by decide⟩

def nextSecond : Timeval := ⟨1, 0, by decide⟩

/-- A command that takes the microsecond in which a second ends has used a negative time. -/
theorem second_boundary :
    elapsed lastMicrosecond nextSecond = 1 ∧
      timesOf getCPUTime (oneCommand lastMicrosecond nextSecond) = [-998999000] ∧
      ¬ ClockOn Unit Unit Set.univ := by
  have htimes : timesOf getCPUTime (oneCommand lastMicrosecond nextSecond) = [-998999000] := by
    rw [(exec_oneCommand lastMicrosecond nextSecond).2, getCPUTime_sub]
    norm_num [lastMicrosecond, nextSecond]
  refine ⟨rfl, htimes, fun h => ?_⟩
  obtain ⟨s, hs⟩ := (exec_oneCommand lastMicrosecond nextSecond).1
  have hnonneg := h.times_nonneg _ s hs (by decide) (fun _ _ => Set.mem_univ _) (-998999000)
    (htimes ▸ List.mem_singleton_self _)
  norm_num at hnonneg

end ElasticFramework
