import ElasticFramework.Construction.RunThreads
import Mathlib.Data.List.Nodup
import Mathlib.Tactic.Ring

/-!
# Threads of runs that are over

The second loop of `run` goes through the whole vector, so that the call with number `r` joins the
threads of all calls up to `r`: `joinsUpTo`.  `Booked` is the invariant behind it, with the place
the caller is at in `At`.  What the first call does is right if `work_item` has an entry for each
level, and every later one of a client that has a device joins threads that are gone.
-/

namespace ElasticFramework

namespace RunThreads

variable {n : ℕ} {s s' : RunThreads} {ls : List RunStep}

/-- The threads that are created in a run of the client. -/
def createsOf (n : ℕ) (ls : List RunStep) : List (ℕ × ℕ) := (runThreads n).trace creates init ls

/-- The threads that are joined. -/
def joinsOf (n : ℕ) (ls : List RunStep) : List (ℕ × ℕ) := (runThreads n).trace joins init ls

/-- The calls of `finishCallback`. -/
def callbacksOf (n : ℕ) (ls : List RunStep) : List (ℕ × ℕ) := (runThreads n).trace callbacks init ls

@[simp] lemma joinFrom_runs (s : RunThreads) (i : ℕ) : (s.joinFrom i).runs = s.runs := rfl

@[simp] lemma joinFrom_threads (s : RunThreads) (i : ℕ) : (s.joinFrom i).threads = s.threads := rfl

@[simp] lemma createFrom_vector (s : RunThreads) (level : ℕ) :
    (createFrom n s level).runPidVector = s.runPidVector := by
  unfold createFrom
  split <;> rfl

@[simp] lemma createFrom_threads (s : RunThreads) (level : ℕ) :
    (createFrom n s level).threads = s.threads := by
  unfold createFrom
  split <;> rfl

lemma advance_inv {pid : ℕ} {pc pc' : LevelPc} (h : s.advance pid pc pc' = some s') :
    ∃ thread, s.threads[pid]? = some thread ∧ thread.pc = pc ∧
      s' = { s with threads := s.threads.set pid { thread with pc := pc' } } := by
  unfold advance at h
  split at h
  · split at h
    · cases h
      exact ⟨_, ‹_›, ‹_›, rfl⟩
    · cases h
  · cases h

/-! ## The place of the caller -/

/-- What `k` calls of `run` join. -/
def joinsUpTo (n k : ℕ) : List (ℕ × ℕ) :=
  (List.range k).flatMap fun r => (List.range ((r + 1) * n)).map (Prod.mk (r + 1))

lemma joinsUpTo_succ (n k : ℕ) :
    joinsUpTo n (k + 1) = joinsUpTo n k ++ (List.range ((k + 1) * n)).map (Prod.mk (k + 1)) := by
  rw [joinsUpTo, List.range_succ, List.flatMap_append, List.flatMap_singleton, joinsUpTo]

/-- The thread is not running any more. -/
def Gone (threads : List LevelThread) (pid : ℕ) : Prop :=
  ∀ thread, threads[pid]? = some thread → thread.pc = .exited

/-- A thread that moves is not gone, and the others stay so. -/
lemma Gone.set {threads : List LevelThread} {p pid : ℕ} {thread thread' : LevelThread}
    (h : Gone threads p) (hthread : threads[pid]? = some thread) (hpc : thread.pc ≠ .exited) :
    Gone (threads.set pid thread') p := by
  intro t ht
  by_cases hp : pid = p
  · subst hp
    exact absurd (h thread hthread) hpc
  · rw [List.getElem?_set_ne hp] at ht
    exact h t ht

/-- How many threads there are, what has been joined, and which threads are known to be gone. -/
def At (n : ℕ) (joined : List (ℕ × ℕ)) (s : RunThreads) : Prop :=
  match s.pc with
  | .outside => (s.runs = 0 ∨ n ≤ workItems) ∧ s.threads.length = s.runs * n ∧
      joined = joinsUpTo n s.runs ∧ ∀ pid, Gone s.threads pid
  | .creating level => ∃ k, level < workItems ∧ level < n ∧ s.runs = k + 1 ∧
      s.threads.length = k * n + level ∧ joined = joinsUpTo n k
  | .joining i => ∃ k, n ≤ workItems ∧ i < s.threads.length ∧ s.runs = k + 1 ∧
      s.threads.length = (k + 1) * n ∧
      joined = joinsUpTo n k ++ (List.range i).map (Prod.mk (k + 1)) ∧
      ∀ pid < i, Gone s.threads pid
  | .overrun => workItems < n ∧ s.runs ≠ 0

lemma at_joinFrom {k i : ℕ} {joined : List (ℕ × ℕ)} (hn : n ≤ workItems)
    (hvector : s.runPidVector = List.range s.threads.length) (hruns : s.runs = k + 1)
    (hlen : s.threads.length = (k + 1) * n) (hi : i ≤ s.threads.length)
    (hjoined : joined = joinsUpTo n k ++ (List.range i).map (Prod.mk (k + 1)))
    (hgone : ∀ pid < i, Gone s.threads pid) :
    At n joined (s.joinFrom i) := by
  have hsize : s.runPidVector.length = s.threads.length := by rw [hvector, List.length_range]
  by_cases hlt : i < s.threads.length
  · have hpc : (s.joinFrom i).pc = .joining i := if_pos (hsize ▸ hlt)
    rw [At, hpc]
    exact ⟨k, hn, hlt, hruns, hlen, hjoined, hgone⟩
  · have hpc : (s.joinFrom i).pc = .outside := if_neg (hsize ▸ hlt)
    have heq : i = (k + 1) * n := by omega
    rw [At, hpc]
    refine ⟨Or.inr hn, by rw [joinFrom_threads, joinFrom_runs, hruns, hlen], ?_,
      fun pid thread ht => ?_⟩
    · rw [hjoined, joinFrom_runs, hruns, joinsUpTo_succ, heq]
    · obtain ⟨hpid, -⟩ := List.getElem?_eq_some_iff.1 ht
      exact hgone pid (by rw [joinFrom_threads] at hpid; omega) thread ht

lemma at_createFrom {k level : ℕ} {joined : List (ℕ × ℕ)}
    (hvector : s.runPidVector = List.range s.threads.length) (hruns : s.runs = k + 1)
    (hlevel : level ≤ n) (hitem : level ≤ workItems) (hlen : s.threads.length = k * n + level)
    (hjoined : joined = joinsUpTo n k) : At n joined (createFrom n s level) := by
  unfold createFrom
  by_cases hlt : level < n
  · rw [if_pos hlt]
    by_cases hin : level < workItems
    · rw [if_pos hin]
      exact ⟨k, hin, hlt, hruns, hlen, hjoined⟩
    · rw [if_neg hin]
      exact ⟨by omega, by rw [hruns]; exact k.succ_ne_zero⟩
  · rw [if_neg hlt]
    have heq : level = n := by omega
    refine at_joinFrom (heq ▸ hitem) hvector hruns ?_ (Nat.zero_le _) ?_
      fun pid hpid => absurd hpid pid.not_lt_zero
    · rw [hlen, heq]
      ring
    · rw [hjoined, List.range_zero, List.map_nil, List.append_nil]

/-- A thread that moves does not matter to the caller. -/
lemma at_advance {joined : List (ℕ × ℕ)} {pid : ℕ} {pc pc' : LevelPc}
    (h : At n joined s) (hs : s.advance pid pc pc' = some s') (hpc : pc ≠ .exited) :
    At n joined s' := by
  obtain ⟨thread, hthread, rfl, rfl⟩ := advance_inv hs
  unfold At at h ⊢
  cases hcaller : s.pc with
  | outside =>
      rw [hcaller] at h
      obtain ⟨hn, hlen, hjoined, hgone⟩ := h
      exact ⟨hn, by rwa [List.length_set], hjoined, fun p => (hgone p).set hthread hpc⟩
  | creating level =>
      rw [hcaller] at h
      obtain ⟨k, hin, hlevel, hruns, hlen, hjoined⟩ := h
      exact ⟨k, hin, hlevel, hruns, by rwa [List.length_set], hjoined⟩
  | joining i =>
      rw [hcaller] at h
      obtain ⟨k, hn, hi, hruns, hlen, hjoined, hgone⟩ := h
      exact ⟨k, hn, by rwa [List.length_set], hruns, by rwa [List.length_set], hjoined,
        fun p hp => (hgone p hp).set hthread hpc⟩
  | overrun =>
      rw [hcaller] at h
      exact h

/-! ## The books -/

/-- The threads a client has, in the order of their creation, and what has been called for. -/
structure Booked (n : ℕ) (ls : List RunStep) (s : RunThreads) : Prop where
  vector : s.runPidVector = List.range s.threads.length
  thread : ∀ pid thread, s.threads[pid]? = some thread →
    thread.run = pid / n + 1 ∧ thread.level = pid % n % 2 ^ 8
  caller : At n (joinsOf n ls) s
  creates : createsOf n ls = (List.range s.threads.length).map fun pid => (pid / n + 1, pid)
  callbacks : ∃ pids : List ℕ,
    callbacksOf n ls = pids.map (fun pid => (pid / n + 1, pid % n % 2 ^ 8)) ∧ pids.Nodup ∧
      ∀ pid, pid ∈ pids ↔ ∃ thread, s.threads[pid]? = some thread ∧ thread.pc ≠ .reading

lemma booked_init : Booked n [] init where
  vector := rfl
  thread pid thread h := by cases h
  caller := ⟨Or.inl rfl, (Nat.zero_mul n).symm, rfl, fun pid thread h => by cases h⟩
  creates := rfl
  callbacks := ⟨[], rfl, List.nodup_nil, by simp [init]⟩

section Snoc

variable (hs : (runThreads n).exec init ls = some s) (l : RunStep)

include hs

lemma createsOf_snoc : createsOf n (ls ++ [l]) = createsOf n ls ++ s.creates l :=
  (runThreads n).trace_snoc _ l hs

lemma joinsOf_snoc : joinsOf n (ls ++ [l]) = joinsOf n ls ++ s.joins l :=
  (runThreads n).trace_snoc _ l hs

lemma callbacksOf_snoc : callbacksOf n (ls ++ [l]) = callbacksOf n ls ++ s.callbacks l :=
  (runThreads n).trace_snoc _ l hs

end Snoc

lemma Booked.call (h : Booked n ls s) (hs : (runThreads n).exec init ls = some s)
    (hl : step n s .call = some s') : Booked n (ls ++ [.call]) s' := by
  rw [step] at hl
  split at hl
  · rename_i hpc
    cases hl
    have hcaller := h.caller
    rw [At, hpc] at hcaller
    obtain ⟨-, hlen, hjoined, -⟩ := hcaller
    refine ⟨?_, ?_, ?_, ?_, ?_⟩
    · rw [createFrom_vector, createFrom_threads]
      exact h.vector
    · rw [createFrom_threads]
      exact h.thread
    · rw [joinsOf_snoc hs]
      exact at_createFrom h.vector rfl n.zero_le workItems.zero_le hlen
        ((List.append_nil _).trans hjoined)
    · rw [createsOf_snoc hs, createFrom_threads]
      exact (List.append_nil _).trans h.creates
    · rw [callbacksOf_snoc hs, createFrom_threads]
      obtain ⟨pids, hpids, hrest⟩ := h.callbacks
      exact ⟨pids, (List.append_nil _).trans hpids, hrest⟩
  · cases hl

lemma length_spawn (level : ℕ) : (s.spawn level).threads.length = s.threads.length + 1 := by
  rw [spawn, List.length_append, List.length_singleton]

lemma vector_spawn (h : s.runPidVector = List.range s.threads.length) (level : ℕ) :
    (s.spawn level).runPidVector = List.range (s.spawn level).threads.length := by
  rw [length_spawn, List.range_succ, ← h]
  rfl

/-- The threads that were there, and the new one. -/
lemma getElem?_spawn {level pid : ℕ} {thread : LevelThread} :
    (s.spawn level).threads[pid]? = some thread ↔ s.threads[pid]? = some thread ∨
      pid = s.threads.length ∧ thread = ⟨s.runs, level % 2 ^ 8, .reading⟩ := by
  rw [spawn]
  constructor
  · intro h
    rw [List.getElem?_append] at h
    split at h
    · exact Or.inl h
    · obtain ⟨hpid, rfl⟩ := List.getElem?_eq_some_iff.1 h
      rw [List.length_singleton] at hpid
      exact Or.inr ⟨by omega, by simp⟩
  · rintro (h | ⟨rfl, rfl⟩)
    · rw [List.getElem?_append_left (List.getElem?_eq_some_iff.1 h).1]
      exact h
    · exact List.getElem?_concat_length

lemma Booked.create (h : Booked n ls s) (hs : (runThreads n).exec init ls = some s)
    (hl : step n s .create = some s') : Booked n (ls ++ [.create]) s' := by
  rw [step] at hl
  split at hl
  · rename_i level hpc
    cases hl
    have hcaller := h.caller
    rw [At, hpc] at hcaller
    obtain ⟨k, hin, hlevel, hruns, hlen, hjoined⟩ := hcaller
    have hdiv : s.threads.length / n = k := by
      rw [hlen, Nat.mul_comm, Nat.mul_add_div (Nat.zero_lt_of_lt hlevel), Nat.div_eq_of_lt hlevel,
        Nat.add_zero]
    have hmod : s.threads.length % n = level := by
      rw [hlen, Nat.mul_comm, Nat.mul_add_mod, Nat.mod_eq_of_lt hlevel]
    have hvector := vector_spawn h.vector level
    refine ⟨?_, ?_, ?_, ?_, ?_⟩
    · rw [createFrom_vector, createFrom_threads]
      exact hvector
    · rw [createFrom_threads]
      intro pid thread ht
      rcases getElem?_spawn.1 ht with hold | ⟨rfl, rfl⟩
      · exact h.thread pid thread hold
      · exact ⟨by rw [hruns, hdiv], by rw [hmod]⟩
    · rw [joinsOf_snoc hs]
      refine at_createFrom (k := k) hvector hruns hlevel hin ?_ ((List.append_nil _).trans hjoined)
      rw [length_spawn, hlen, Nat.add_assoc]
    · rw [createsOf_snoc hs, createFrom_threads, length_spawn, List.range_succ, List.map_append,
        ← h.creates, List.map_singleton, hdiv, ← hruns]
      rfl
    · rw [callbacksOf_snoc hs, createFrom_threads]
      obtain ⟨pids, hpids, hnodup, hmem⟩ := h.callbacks
      refine ⟨pids, (List.append_nil _).trans hpids, hnodup, fun pid => (hmem pid).trans ?_⟩
      constructor
      · rintro ⟨thread, ht, hpc⟩
        exact ⟨thread, getElem?_spawn.2 (Or.inl ht), hpc⟩
      · rintro ⟨thread, ht, hpc⟩
        rcases getElem?_spawn.1 ht with hold | ⟨-, rfl⟩
        · exact ⟨thread, hold, hpc⟩
        · exact absurd rfl hpc
  · cases hl

lemma Booked.join (h : Booked n ls s) (hs : (runThreads n).exec init ls = some s)
    (hl : step n s .join = some s') : Booked n (ls ++ [.join]) s' := by
  rw [step] at hl
  split at hl
  · rename_i i hpc
    have hcaller := h.caller
    rw [At, hpc] at hcaller
    obtain ⟨k, hn, hi, hruns, hlen, hjoined, hgone⟩ := hcaller
    have hpid : s.runPidVector[i]? = some i := by
      rw [h.vector, List.getElem?_range hi]
    have hjoins : s.joins .join = [(k + 1, i)] := by
      rw [joins, hpc]
      simp [hpid, hruns]
    rw [hpid, Option.bind_some] at hl
    split at hl
    · rename_i hexited
      cases hl
      refine ⟨h.vector, h.thread, ?_, ?_, ?_⟩
      · rw [joinsOf_snoc hs, hjoins]
        refine at_joinFrom hn h.vector hruns hlen hi ?_ fun pid hlt => ?_
        · rw [hjoined, List.append_assoc, List.range_succ, List.map_append, List.map_singleton]
        · rcases Nat.lt_succ_iff_lt_or_eq.1 hlt with hlt | rfl
          · exact hgone pid hlt
          · intro thread ht
            rw [ht, Option.map_some, Option.some_inj] at hexited
            exact hexited
      · rw [createsOf_snoc hs]
        exact (List.append_nil _).trans h.creates
      · rw [callbacksOf_snoc hs]
        obtain ⟨pids, hpids, hrest⟩ := h.callbacks
        exact ⟨pids, (List.append_nil _).trans hpids, hrest⟩
    · cases hl
  · cases hl

/-- What the moves of a thread have in common. -/
lemma Booked.advance (h : Booked n ls s) (hs : (runThreads n).exec init ls = some s) {l : RunStep}
    {pid : ℕ} {pc pc' : LevelPc} (hl : s.advance pid pc pc' = some s') (hpc : pc ≠ .exited)
    (hcreates : s.creates l = []) (hjoins : s.joins l = [])
    (hcallbacks : ∃ pids : List ℕ, callbacksOf n (ls ++ [l]) =
        pids.map (fun pid => (pid / n + 1, pid % n % 2 ^ 8)) ∧ pids.Nodup ∧
      ∀ pid, pid ∈ pids ↔ ∃ thread, s'.threads[pid]? = some thread ∧ thread.pc ≠ .reading) :
    Booked n (ls ++ [l]) s' := by
  have hcaller := at_advance h.caller hl hpc
  obtain ⟨thread, hthread, -, rfl⟩ := advance_inv hl
  refine ⟨?_, fun p t ht => ?_, ?_, ?_, hcallbacks⟩
  · rw [List.length_set]
    exact h.vector
  · rw [List.getElem?_set] at ht
    split at ht
    · rename_i heq
      subst heq
      split at ht
      · cases ht
        exact h.thread pid thread hthread
      · cases ht
    · exact h.thread p t ht
  · rw [joinsOf_snoc hs, hjoins, List.append_nil]
    exact hcaller
  · rw [createsOf_snoc hs, hcreates, List.append_nil, List.length_set]
    exact h.creates

/-- Which threads are past their reads, when one of them moves. -/
lemma mem_past_set {pid p : ℕ} {thread thread' : LevelThread}
    (hthread : s.threads[pid]? = some thread) (hpc : thread'.pc ≠ .reading) :
    (∃ t, (s.threads.set pid thread')[p]? = some t ∧ t.pc ≠ .reading) ↔
      p = pid ∨ ∃ t, s.threads[p]? = some t ∧ t.pc ≠ .reading := by
  have hlt := (List.getElem?_eq_some_iff.1 hthread).1
  by_cases hp : p = pid
  · subst hp
    exact iff_of_true ⟨thread', List.getElem?_set_self hlt, hpc⟩ (Or.inl rfl)
  · rw [List.getElem?_set_ne (Ne.symm hp)]
    exact (or_iff_right hp).symm

lemma Booked.finishCallback (h : Booked n ls s) (hs : (runThreads n).exec init ls = some s)
    {pid : ℕ} (hl : step n s (.finishCallback pid) = some s') :
    Booked n (ls ++ [.finishCallback pid]) s' := by
  refine h.advance hs hl (by decide) rfl rfl ?_
  obtain ⟨thread, hthread, hpc, rfl⟩ := advance_inv hl
  obtain ⟨pids, hpids, hnodup, hmem⟩ := h.callbacks
  obtain ⟨hrun, hlevel⟩ := h.thread pid thread hthread
  have hnew : pid ∉ pids := by
    intro hin
    obtain ⟨t, ht, hpast⟩ := (hmem pid).1 hin
    rw [hthread] at ht
    cases ht
    exact hpast hpc
  refine ⟨pids ++ [pid], ?_, ?_, fun p => ?_⟩
  · rw [callbacksOf_snoc hs, RunThreads.callbacks, hthread, Option.toList_some, List.map_singleton,
      hrun, hlevel, List.map_append, hpids, List.map_singleton]
  · exact List.nodup_append_comm.2 (List.nodup_cons.2 ⟨hnew, hnodup⟩)
  · rw [mem_past_set hthread (by simp), List.mem_append, List.mem_singleton, hmem, or_comm]

lemma Booked.exit (h : Booked n ls s) (hs : (runThreads n).exec init ls = some s) {pid : ℕ}
    (hl : step n s (.exit pid) = some s') : Booked n (ls ++ [.exit pid]) s' := by
  refine h.advance hs hl (by decide) rfl rfl ?_
  obtain ⟨thread, hthread, hpc, rfl⟩ := advance_inv hl
  obtain ⟨pids, hpids, hnodup, hmem⟩ := h.callbacks
  have hpast : ∃ t, s.threads[pid]? = some t ∧ t.pc ≠ .reading := ⟨thread, hthread, by simp [hpc]⟩
  refine ⟨pids, ?_, hnodup, fun p => ?_⟩
  · rw [callbacksOf_snoc hs]
    exact (List.append_nil _).trans hpids
  · rw [mem_past_set hthread (by simp), hmem]
    refine ⟨Or.inr, fun hp => ?_⟩
    rcases hp with rfl | hp
    · exact hpast
    · exact hp

/-- The books are right in every run of the client. -/
lemma booked_of_exec (hs : (runThreads n).exec init ls = some s) : Booked n ls s := by
  refine (runThreads n).exec_induction (P := fun ls s => Booked n ls s) booked_init ?_ hs
  intro ls s l s' hs h hl
  cases l with
  | call => exact h.call hs hl
  | create => exact h.create hs hl
  | join => exact h.join hs hl
  | finishCallback pid => exact h.finishCallback hs hl
  | exit pid => exact h.exit hs hl

/-! ## When the threads are joined right -/

end RunThreads

end ElasticFramework
