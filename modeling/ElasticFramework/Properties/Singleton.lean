import ElasticFramework.Construction.Singleton
import Mathlib.Data.List.Nodup

/-!
# How many instances there are

The flag is tested outside the mutex, not tested again inside, and set after the mutex has been
given back, so that every thread that misses it constructs an object of its own: `misses_eq` counts
them.  `Sole` is the invariant of the runs in which no thread misses the flag while another is in
the branch; one object is constructed, and it keeps what is added.
-/

namespace ElasticFramework

/-- The thread is in the branch. -/
def InstancePc.inBranch : InstancePc → Bool
  | .away | .holding => false
  | _ => true

/-- The thread has assigned its object and not left the branch. -/
def InstancePc.built : InstancePc → Bool
  | .assigned | .unlocked => true
  | _ => false

namespace Singleton

variable {T α : Type*} [DecidableEq T] {s s' : Singleton T α} {ls : List (SingletonStep T α)}

/-- The objects whose semaphores are waited on. -/
def waitsOf (ls : List (SingletonStep T α)) : List ℕ := (singleton T α).trace waits init ls

/-- What is added, in its order. -/
def addsOf (ls : List (SingletonStep T α)) : List α := (singleton T α).trace adds init ls

/-- The threads that miss the flag. -/
def missesOf (ls : List (SingletonStep T α)) : List T := (singleton T α).trace misses init ls

/-- What the object holds that the reference leads to. -/
def held (s : Singleton T α) : List α := (s.object.map s.contents).getD []

/-- One object is constructed and there once a thread has the reference, all threads wait on one
semaphore, and nothing that was added is lost. -/
structure OneInstance (ls : List (SingletonStep T α)) (s : Singleton T α) : Prop where
  constructed_le : s.constructed ≤ 1
  constructed_eq : ∀ t, s.pc t = .holding → s.constructed = 1
  waits : ∀ o ∈ waitsOf ls, ∀ o' ∈ waitsOf ls, o = o'
  adds : s.held = addsOf ls

section Snoc

variable (hs : (singleton T α).exec init ls = some s) (l : SingletonStep T α)

include hs

lemma waitsOf_snoc : waitsOf (ls ++ [l]) = waitsOf ls ++ s.waits l :=
  (singleton T α).trace_snoc _ l hs

lemma addsOf_snoc : addsOf (ls ++ [l]) = addsOf ls ++ s.adds l :=
  (singleton T α).trace_snoc _ l hs

lemma missesOf_snoc : missesOf (ls ++ [l]) = missesOf ls ++ s.misses l :=
  (singleton T α).trace_snoc _ l hs

end Snoc

/-! ## The moves -/

/-- The moves, one constructor a label. -/
inductive Move (s : Singleton T α) : SingletonStep T α → Singleton T α → Prop
  | hit {t} (hpc : s.pc t = .away) (hflag : s.isInit = true) : Move s (.read t) (s.goto t .holding)
  | miss {t} (hpc : s.pc t = .away) (hflag : s.isInit = false) :
      Move s (.read t) (s.goto t .tested)
  | lock {t} (hpc : s.pc t = .tested) (hmutex : s.initMutex = none) :
      Move s (.lock t) ({ s with initMutex := some t }.goto t .locked)
  | assign {t} (hpc : s.pc t = .locked) :
      Move s (.assign t)
        ({ s with object := some s.constructed, constructed := s.constructed + 1 }.goto t .assigned)
  | unlock {t} (hpc : s.pc t = .assigned) :
      Move s (.unlock t) ({ s with initMutex := none }.goto t .unlocked)
  | setFlag {t} (hpc : s.pc t = .unlocked) :
      Move s (.setFlag t) ({ s with isInit := true }.goto t .holding)
  | add {t x o} (hpc : s.pc t = .holding) (hobject : s.object = some o) :
      Move s (.add t x) { s with contents := Function.update s.contents o (s.contents o ++ [x]) }
  | wait {t} (hpc : s.pc t = .holding) : Move s (.wait t) s
  | leave {t} (hpc : s.pc t = .holding) : Move s (.leave t) (s.goto t .away)

lemma step_inv {l : SingletonStep T α} (h : s.step l = some s') : Move s l s' := by
  cases l with
  | read t =>
      rw [step] at h
      split at h
      · cases h
        cases hflag : s.isInit with
        | true => exact .hit ‹_› hflag
        | false => exact .miss ‹_› hflag
      · cases h
  | lock t =>
      rw [step] at h
      split at h
      · rename_i hpc
        cases h
        exact .lock hpc.1 hpc.2
      · cases h
  | assign t =>
      rw [step] at h
      split at h
      · cases h
        exact .assign ‹_›
      · cases h
  | unlock t =>
      rw [step] at h
      split at h
      · cases h
        exact .unlock ‹_›
      · cases h
  | setFlag t =>
      rw [step] at h
      split at h
      · cases h
        exact .setFlag ‹_›
      · cases h
  | add t x =>
      rw [step] at h
      split at h
      · obtain ⟨o, ho, rfl⟩ := Option.map_eq_some_iff.1 h
        exact .add ‹_› ho
      · cases h
  | wait t =>
      rw [step] at h
      split at h
      · cases h
        exact .wait ‹_›
      · cases h
  | leave t =>
      rw [step] at h
      split at h
      · cases h
        exact .leave ‹_›
      · cases h

lemma goto_pc_self (s : Singleton T α) (t : T) (pc : InstancePc) : (s.goto t pc).pc t = pc :=
  Function.update_self ..

lemma goto_pc_of_ne (s : Singleton T α) {t t' : T} (pc : InstancePc) (h : t' ≠ t) :
    (s.goto t pc).pc t' = s.pc t' := Function.update_of_ne h ..

/-! ## One thread after the other -/

/-- How far the construction of the object is, when one thread at a time is in the branch. -/
inductive Phase (s : Singleton T α) : Prop
  | fresh (hpc : ∀ t, s.pc t = .away) (hflag : s.isInit = false) (hobject : s.object = none)
      (hconstructed : s.constructed = 0)
  | building (t : T) (hpc : (s.pc t).inBranch = true) (hothers : ∀ t' ≠ t, s.pc t' = .away)
      (hflag : s.isInit = false) (hobject : s.object = if (s.pc t).built then some 0 else none)
      (hconstructed : s.constructed = if (s.pc t).built then 1 else 0)
  | ready (hsettled : s.Settled) (hflag : s.isInit = true) (hobject : s.object = some 0)
      (hconstructed : s.constructed = 1)

omit [DecidableEq T] in
lemma Phase.constructed_le (h : Phase s) : s.constructed ≤ 1 := by
  cases h with
  | building t hpc hothers hflag hobject hconstructed =>
      rw [hconstructed]
      split <;> decide
  | _ => omega

omit [DecidableEq T] in
/-- A thread in the branch is the only one. -/
lemma Phase.of_inBranch (h : Phase s) {t : T} (hpc : (s.pc t).inBranch = true) :
    (∀ t' ≠ t, s.pc t' = .away) ∧ s.isInit = false ∧
      (s.object = if (s.pc t).built then some 0 else none) ∧
      s.constructed = if (s.pc t).built then 1 else 0 := by
  cases h with
  | fresh haway =>
      rw [haway t] at hpc
      cases hpc
  | building t₀ hpc₀ hothers hflag hobject hconstructed =>
      by_cases ht : t = t₀
      · subst ht
        exact ⟨hothers, hflag, hobject, hconstructed⟩
      · rw [hothers t ht] at hpc
        cases hpc
  | ready hsettled =>
      rcases hsettled t with ht | ht <;> rw [ht] at hpc <;> cases hpc

omit [DecidableEq T] in
/-- With the flag set, or with a reference, the object is there. -/
lemma Phase.of_ready (h : Phase s) (hready : s.isInit = true ∨ ∃ t, s.pc t = .holding) :
    s.Settled ∧ s.isInit = true ∧ s.object = some 0 ∧ s.constructed = 1 := by
  cases h with
  | fresh haway hflag =>
      rcases hready with hset | ⟨t, hholding⟩
      · simp [hflag] at hset
      · simp [haway t] at hholding
  | building t₀ hpc₀ hothers hflag =>
      rcases hready with hset | ⟨t, hholding⟩
      · simp [hflag] at hset
      · by_cases ht : t = t₀
        · subst ht
          rw [hholding] at hpc₀
          cases hpc₀
        · simp [hothers t ht] at hholding
  | ready hsettled hflag hobject hconstructed => exact ⟨hsettled, hflag, hobject, hconstructed⟩

/-- The thread in the branch moves on. -/
lemma Phase.goto {t : T} {pc : InstancePc} (hothers : ∀ t' ≠ t, s.pc t' = .away)
    (hpc : pc.inBranch = true) (hflag : s.isInit = false)
    (hobject : s.object = if pc.built then some 0 else none)
    (hconstructed : s.constructed = if pc.built then 1 else 0) : Phase (s.goto t pc) := by
  refine .building t ?_ (fun t' ht' => ?_) hflag ?_ ?_
  · rwa [goto_pc_self]
  · rw [goto_pc_of_ne s pc ht']
    exact hothers t' ht'
  · rwa [goto_pc_self]
  · rwa [goto_pc_self]

lemma settled_goto {t : T} {pc : InstancePc} (hpc : pc = .away ∨ pc = .holding)
    (h : ∀ t' ≠ t, s.pc t' = .away ∨ s.pc t' = .holding) : (s.goto t pc).Settled := by
  intro t'
  by_cases ht : t' = t
  · subst ht
    rwa [goto_pc_self]
  · rw [goto_pc_of_ne s pc ht]
    exact h t' ht

lemma Phase.move {l : SingletonStep T α} (h : Phase s) (halone : s.Alone l) (hl : Move s l s') :
    Phase s' := by
  cases hl with
  | @hit t hpc hflag =>
      obtain ⟨hsettled, -, hobject, hconstructed⟩ := h.of_ready (Or.inl hflag)
      exact .ready (settled_goto (Or.inr rfl) fun t' _ => hsettled t') hflag hobject hconstructed
  | @miss t hpc hflag =>
      have hsettled := halone t rfl hflag
      cases h with
      | fresh haway _ hobject hconstructed =>
          exact .goto (fun t' _ => haway t') rfl hflag hobject hconstructed
      | building t₀ hpc₀ =>
          rcases hsettled t₀ with h₀ | h₀ <;> rw [h₀] at hpc₀ <;> cases hpc₀
      | ready _ hset =>
          simp [hflag] at hset
  | @lock t hpc hmutex =>
      obtain ⟨hothers, hflag, hobject, hconstructed⟩ := h.of_inBranch (t := t) (by rw [hpc]; rfl)
      rw [hpc] at hobject hconstructed
      exact .goto hothers rfl hflag hobject hconstructed
  | @assign t hpc =>
      obtain ⟨hothers, hflag, -, hconstructed⟩ := h.of_inBranch (t := t) (by rw [hpc]; rfl)
      rw [hpc] at hconstructed
      exact .goto hothers rfl hflag (congrArg some hconstructed) (congrArg (· + 1) hconstructed)
  | @unlock t hpc =>
      obtain ⟨hothers, hflag, hobject, hconstructed⟩ := h.of_inBranch (t := t) (by rw [hpc]; rfl)
      rw [hpc] at hobject hconstructed
      exact .goto hothers rfl hflag hobject hconstructed
  | @setFlag t hpc =>
      obtain ⟨hothers, -, hobject, hconstructed⟩ := h.of_inBranch (t := t) (by rw [hpc]; rfl)
      rw [hpc] at hobject hconstructed
      exact .ready (settled_goto (Or.inr rfl) fun t' ht' => Or.inl (hothers t' ht')) rfl hobject
        hconstructed
  | @add t x o hpc hobject =>
      obtain ⟨hsettled, hflag, hobject, hconstructed⟩ := h.of_ready (Or.inr ⟨t, hpc⟩)
      exact .ready hsettled hflag hobject hconstructed
  | wait hpc => exact h
  | @leave t hpc =>
      obtain ⟨hsettled, hflag, hobject, hconstructed⟩ := h.of_ready (Or.inr ⟨t, hpc⟩)
      exact .ready (settled_goto (Or.inl rfl) fun t' _ => hsettled t') hflag hobject hconstructed

/-- The invariant: the phase, that objects that are not there are empty, and what the run has
waited on and added. -/
structure Sole (ls : List (SingletonStep T α)) (s : Singleton T α) : Prop where
  phase : Phase s
  empty : ∀ o, s.constructed ≤ o → s.contents o = []
  waits : ∀ o ∈ waitsOf ls, o = 0
  adds : s.held = addsOf ls

lemma sole_init : Sole [] (init : Singleton T α) where
  phase := .fresh (fun _ => rfl) rfl rfl rfl
  empty _ _ := rfl
  waits o ho := by cases ho
  adds := rfl

lemma Sole.move {l : SingletonStep T α} (h : Sole ls s)
    (hs : (singleton T α).exec init ls = some s) (halone : s.Alone l) (hl : Move s l s') :
    Sole (ls ++ [l]) s' := by
  have hphase := h.phase.move halone hl
  have hwaits : ∀ o ∈ s.waits l, o = 0 := by
    cases hl with
    | @wait t hpc =>
        obtain ⟨-, -, hobject, -⟩ := h.phase.of_ready (Or.inr ⟨t, hpc⟩)
        simp [Singleton.waits, hobject]
    | _ => simp [Singleton.waits]
  have hadds : s'.held = addsOf ls ++ s.adds l := by
    rw [← h.adds]
    cases hl with
    | @assign t hpc =>
        obtain ⟨-, -, hobject, -⟩ := h.phase.of_inBranch (t := t) (by rw [hpc]; rfl)
        rw [hpc] at hobject
        have hobject : s.object = none := hobject
        have hempty := h.empty s.constructed (Nat.le_refl _)
        simpa [held, goto, hobject, Singleton.adds] using hempty
    | @add t x o hpc hobject => simp [held, hobject, Singleton.adds]
    | _ => exact (List.append_nil _).symm
  have hempty : ∀ o, s'.constructed ≤ o → s'.contents o = [] := by
    cases hl with
    | assign hpc => exact fun o ho => h.empty o (Nat.le_of_succ_le ho)
    | @add t x o hpc hobject =>
        obtain ⟨-, -, hzero, hconstructed⟩ := h.phase.of_ready (Or.inr ⟨t, hpc⟩)
        intro o' ho'
        have hne : o' ≠ o := by
          rw [hobject, Option.some_inj] at hzero
          change s.constructed ≤ o' at ho'
          omega
        show Function.update s.contents o (s.contents o ++ [x]) o' = []
        rw [Function.update_of_ne hne]
        exact h.empty o' ho'
    | _ => exact h.empty
  refine ⟨hphase, hempty, fun o ho => ?_, ?_⟩
  · rw [waitsOf_snoc hs] at ho
    rcases List.mem_append.1 ho with ho | ho
    · exact h.waits o ho
    · exact hwaits o ho
  · rw [addsOf_snoc hs]
    exact hadds

lemma sole_of_alone (hs : (singleton T α).exec init ls = some s)
    (halone : (singleton T α).AllSteps Alone init ls) : Sole ls s := by
  refine (singleton T α).exec_induction
    (P := fun ls s => (singleton T α).AllSteps Alone init ls → Sole ls s) (fun _ => sole_init) ?_
    hs halone
  intro ls s l s' hs ih hl hall
  obtain ⟨hls, hlast⟩ := (singleton T α).allSteps_snoc_iff.1 hall
  exact (ih hls).move hs (hlast s hs) (step_inv hl)

lemma Sole.oneInstance (h : Sole ls s) : OneInstance ls s where
  constructed_le := h.phase.constructed_le
  constructed_eq t ht := (h.phase.of_ready (Or.inr ⟨t, ht⟩)).2.2.2
  waits o ho o' ho' := (h.waits o ho).trans (h.waits o' ho').symm
  adds := h.adds

/-! ## One object for each miss -/

/-- The threads that have missed the flag and not constructed an object yet. -/
structure Pending (l : List T) (pc : T → InstancePc) : Prop where
  nodup : l.Nodup
  mem_iff : ∀ t, t ∈ l ↔ pc t = .tested ∨ pc t = .locked

section Pending

variable {l : List T} {pc : T → InstancePc} {t : T}

/-- A move that leaves the threads between the test and the assignment as they are. -/
lemma Pending.keep (h : Pending l pc) {next : InstancePc}
    (hnext : (next = .tested ∨ next = .locked) ↔ (pc t = .tested ∨ pc t = .locked)) :
    Pending l (Function.update pc t next) where
  nodup := h.nodup
  mem_iff t' := by
    by_cases ht : t' = t
    · subst ht
      rw [Function.update_self, hnext]
      exact h.mem_iff t'
    · rw [Function.update_of_ne ht]
      exact h.mem_iff t'

lemma Pending.miss (h : Pending l pc) (hpc : pc t = .away) :
    Pending (t :: l) (Function.update pc t .tested) where
  nodup := List.nodup_cons.2 ⟨fun ht => by simpa [hpc] using (h.mem_iff t).1 ht, h.nodup⟩
  mem_iff t' := by
    by_cases ht : t' = t
    · subst ht
      simp
    · rw [Function.update_of_ne ht, List.mem_cons, or_iff_right ht]
      exact h.mem_iff t'

lemma Pending.assign (h : Pending l pc) : Pending (l.erase t) (Function.update pc t .assigned) where
  nodup := h.nodup.erase t
  mem_iff t' := by
    rw [h.nodup.mem_erase_iff]
    by_cases ht : t' = t
    · subst ht
      simp
    · rw [Function.update_of_ne ht, and_iff_right ht]
      exact h.mem_iff t'

end Pending

/-- Every miss of the flag constructs an object, as soon as its thread comes to it. -/
lemma misses_eq (hs : (singleton T α).exec init ls = some s) :
    ∃ l, Pending l s.pc ∧ (missesOf ls).length = s.constructed + l.length := by
  refine (singleton T α).exec_induction
    (P := fun ls s => ∃ l, Pending l s.pc ∧ (missesOf ls).length = s.constructed + l.length)
    ⟨[], ⟨List.nodup_nil, by simp [init]⟩, rfl⟩ ?_ hs
  rintro ls s m s' hs ⟨l, hl, hlen⟩ hm
  rw [missesOf_snoc hs, List.length_append]
  cases step_inv hm with
  | hit hpc hflag =>
      refine ⟨l, hl.keep (by simp [hpc]), ?_⟩
      simp [misses, hflag, hlen, goto]
  | @miss t hpc hflag =>
      refine ⟨t :: l, hl.miss hpc, ?_⟩
      simp [misses, hflag, hlen, goto, Nat.add_assoc]
  | lock hpc hmutex => exact ⟨l, hl.keep (by simp [hpc]), hlen⟩
  | @assign t hpc =>
      refine ⟨l.erase t, hl.assign, ?_⟩
      have hmem : t ∈ l := (hl.mem_iff t).2 (Or.inr hpc)
      have hpos := List.length_pos_of_mem hmem
      rw [List.length_erase_of_mem hmem, hlen]
      show s.constructed + l.length + 0 = s.constructed + 1 + (l.length - 1)
      omega
  | unlock hpc => exact ⟨l, hl.keep (by simp [hpc]), hlen⟩
  | setFlag hpc => exact ⟨l, hl.keep (by simp [hpc]), hlen⟩
  | add hpc hobject => exact ⟨l, hl, hlen⟩
  | wait hpc => exact ⟨l, hl, hlen⟩
  | leave hpc => exact ⟨l, hl.keep (by simp [hpc]), hlen⟩

/-- As long as no thread has missed the flag, none has done anything. -/
lemma away_of_misses (hs : (singleton T α).exec init ls = some s) (h : missesOf ls = []) :
    s.isInit = false ∧ ∀ t, s.pc t = .away := by
  refine (singleton T α).exec_induction
    (P := fun ls s => missesOf ls = [] → s.isInit = false ∧ ∀ t, s.pc t = .away)
    (fun _ => ⟨rfl, fun _ => rfl⟩) ?_ hs h
  intro ls s m s' hs ih hm h
  rw [missesOf_snoc hs, List.append_eq_nil_iff] at h
  obtain ⟨hflag, haway⟩ := ih h.1
  cases step_inv hm with
  | hit hpc hset => simp [hflag] at hset
  | miss hpc hunset => simp [misses, hflag] at h
  | lock hpc | assign hpc | unlock hpc | setFlag hpc | add hpc | wait hpc | leave hpc =>
      simp [haway] at hpc

/-- With one miss at most, no thread missed the flag while another was in the branch. -/
lemma alone_of_misses (hs : (singleton T α).exec init ls = some s)
    (h : (missesOf ls).length ≤ 1) : (singleton T α).AllSteps Alone init ls := by
  refine (singleton T α).exec_induction
    (P := fun ls _ => (missesOf ls).length ≤ 1 → (singleton T α).AllSteps Alone init ls)
    (fun _ => (singleton T α).allSteps_nil Alone init) ?_ hs h
  intro ls s m s' hs ih hm h
  rw [missesOf_snoc hs, List.length_append] at h
  refine (singleton T α).allSteps_snoc_iff.2 ⟨ih (by omega), fun s₀ hs₀ => ?_⟩
  cases hs.symm.trans hs₀
  rintro t rfl hflag
  have hmiss : (s.misses (.read t : SingletonStep T α)).length = 1 := by simp [misses, hflag]
  have hnil : missesOf ls = [] := List.length_eq_zero_iff.1 (by omega)
  exact fun t' => Or.inl ((away_of_misses hs hnil).2 t')

/-- Where no thread is in the branch there are as many objects as misses. -/
lemma alone_of_oneInstance (hs : (singleton T α).exec init ls = some s) (hsettled : s.Settled)
    (h : OneInstance ls s) : (singleton T α).AllSteps Alone init ls := by
  obtain ⟨l, hl, hlen⟩ := misses_eq hs
  have hnil : l = [] := by
    refine List.eq_nil_iff_forall_not_mem.2 fun t ht => ?_
    rcases hsettled t with hpc | hpc <;> simpa [hpc] using (hl.mem_iff t).1 ht
  refine alone_of_misses hs ?_
  rw [hlen, hnil, List.length_nil]
  exact h.constructed_le

end Singleton

/-- **In every run in which no thread finds the flag unset while another is in the branch, one
object is constructed, all threads wait on its semaphore and nothing is lost; and once no thread is
in the branch, this is so in no other run.  It holds of both functions, for any set of threads.** -/
theorem oneInstance_iff (T : Type*) [DecidableEq T]
    (M : Machine (Singleton T ℕ) (SingletonStep T ℕ))
    (hM : M = CommandPool.Instance T ∨ M = VMAFSNScheduler.Instance T)
    {ls : List (SingletonStep T ℕ)} {s : Singleton T ℕ} (hs : M.exec Singleton.init ls = some s) :
    (M.AllSteps Singleton.Alone Singleton.init ls → Singleton.OneInstance ls s) ∧
      (s.Settled → (Singleton.OneInstance ls s ↔
        M.AllSteps Singleton.Alone Singleton.init ls)) := by
  obtain rfl : M = singleton T ℕ := by
    rcases hM with rfl | rfl <;> rfl
  have hone : (singleton T ℕ).AllSteps Singleton.Alone Singleton.init ls →
      Singleton.OneInstance ls s := fun h => (Singleton.sole_of_alone hs h).oneInstance
  exact ⟨hone, fun hsettled => ⟨Singleton.alone_of_oneInstance hs hsettled, hone⟩⟩

/-- The first caller is through before the second one comes. -/
def oneByOne : List (SingletonStep Bool ℕ) :=
  [.read true, .lock true, .assign true, .unlock true, .setFlag true, .read false, .wait false,
    .add true 7]

theorem oneInstance_iff_oneByOne :
    ∃ s, (CommandPool.Instance Bool).exec Singleton.init oneByOne = some s ∧
      ((CommandPool.Instance Bool).AllSteps Singleton.Alone Singleton.init oneByOne →
        Singleton.OneInstance oneByOne s) ∧
      (s.Settled → (Singleton.OneInstance oneByOne s ↔
        (CommandPool.Instance Bool).AllSteps Singleton.Alone Singleton.init oneByOne)) := by
  have hs : (CommandPool.Instance Bool).exec Singleton.init oneByOne = some _ := rfl
  exact ⟨_, hs, oneInstance_iff Bool _ (Or.inl rfl) hs⟩

/-- Two threads find the flag unset.  The first waits on the semaphore of its object and adds to it
before the second assigns another. -/
def bothMiss : List (SingletonStep Bool ℕ) :=
  [.read true, .read false, .lock true, .assign true, .unlock true, .setFlag true, .wait true,
    .add true 7, .lock false, .assign false, .unlock false, .setFlag false, .wait false]

theorem two_instances :
    ∃ s, (CommandPool.Instance Bool).exec Singleton.init bothMiss = some s ∧ s.Settled ∧
      s.constructed = 2 ∧ Singleton.waitsOf bothMiss = [0, 1] ∧ Singleton.addsOf bothMiss = [7] ∧
      s.held = [] ∧ ¬ Singleton.OneInstance bothMiss s := by
  have hs : (CommandPool.Instance Bool).exec Singleton.init bothMiss = some _ := rfl
  refine ⟨_, hs, fun t => ?_, rfl, rfl, rfl, rfl, fun h => absurd h.constructed_le (by decide)⟩
  cases t <;> exact Or.inr rfl

end ElasticFramework
