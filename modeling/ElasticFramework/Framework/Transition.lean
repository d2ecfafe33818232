import Mathlib.Data.List.Induction

/-!
# Labelled machines, their runs, and history invariants

A `Machine` is a partial deterministic transition function: the label carries every choice
the environment or a scheduler makes, and `none` says the step is not enabled.  `exec` runs a
list of labels, so a concrete run is an equation that can be evaluated.

## What a run remembers

`Occurs M s₀ ls s l` says that the run of `ls` from `s₀` performs step `l` in state `s`, and
`AllSteps` that every step performed meets a condition on the state before it and its label.
`trace` collects what an emission function says about the steps, oldest first; it is the only
form of history this development keeps, so no state carries a log of its own past.

## The induction rules

`exec_induction` is the snoc-induction every property of runs goes through: the property
holds of the empty run, and one more step keeps it.  `invariant` is its form for properties of
the state alone, `invariant_of_allSteps` the form for a property that survives only the steps
meeting a condition.  `trace_eq_nil_iff` converts "nothing was emitted" into `AllSteps`.
-/

namespace ElasticFramework

/-- A labelled machine: `step s l` is the state after `l`, or `none` when `l` is disabled. -/
structure Machine (σ ℓ : Type*) where
  step : σ → ℓ → Option σ

namespace Machine

variable {σ ℓ ε : Type*} (M : Machine σ ℓ)

/-- Run a list of labels, oldest first. -/
def exec : σ → List ℓ → Option σ
  | s, [] => some s
  | s, l :: ls => (M.step s l).bind fun s' => exec s' ls

@[simp] lemma exec_nil (s : σ) : M.exec s [] = some s := rfl

@[simp] lemma exec_cons (s : σ) (l : ℓ) (ls : List ℓ) :
    M.exec s (l :: ls) = (M.step s l).bind fun s' => M.exec s' ls := rfl

lemma exec_cons_iff {s s' : σ} {l : ℓ} {ls : List ℓ} :
    M.exec s (l :: ls) = some s' ↔ ∃ t, M.step s l = some t ∧ M.exec t ls = some s' := by
  rw [exec_cons, Option.bind_eq_some_iff]

lemma exec_append (s : σ) (ls ms : List ℓ) :
    M.exec s (ls ++ ms) = (M.exec s ls).bind fun s' => M.exec s' ms := by
  induction ls generalizing s with
  | nil => rfl
  | cons l ls ih =>
      simp only [List.cons_append, exec_cons, Option.bind_assoc]
      congr 1
      funext s'
      exact ih s'

lemma exec_snoc_iff {s₀ s' : σ} {ls : List ℓ} {l : ℓ} :
    M.exec s₀ (ls ++ [l]) = some s' ↔ ∃ s, M.exec s₀ ls = some s ∧ M.step s l = some s' := by
  rw [exec_append]
  simp [Option.bind_eq_some_iff]

lemma exec_append_iff {s₀ s' : σ} {ls ms : List ℓ} :
    M.exec s₀ (ls ++ ms) = some s' ↔ ∃ s, M.exec s₀ ls = some s ∧ M.exec s ms = some s' := by
  rw [exec_append]
  simp [Option.bind_eq_some_iff]

/-! ## Induction over runs -/

/-- Snoc-induction: what holds of the empty run and is kept by one more step holds of every
run. -/
lemma exec_induction {s₀ : σ} {P : List ℓ → σ → Prop} (hnil : P [] s₀)
    (hsnoc : ∀ ls s l s', M.exec s₀ ls = some s → P ls s → M.step s l = some s' →
      P (ls ++ [l]) s') :
    ∀ {ls s}, M.exec s₀ ls = some s → P ls s := by
  intro ls
  induction ls using List.reverseRecOn with
  | nil =>
      intro s hs
      cases hs
      exact hnil
  | append_singleton ls l ih =>
      intro s' hs'
      obtain ⟨s, hs, hl⟩ := M.exec_snoc_iff.1 hs'
      exact hsnoc ls s l s' hs (ih hs) hl

/-- A property of the state that one step keeps is kept by a run. -/
lemma invariant {s₀ : σ} {I : σ → Prop} (hinit : I s₀)
    (hstep : ∀ s l s', I s → M.step s l = some s' → I s') {ls : List ℓ} {s : σ}
    (h : M.exec s₀ ls = some s) : I s :=
  M.exec_induction (P := fun _ s => I s) hinit
    (fun _ s l s' _ hI hl => hstep s l s' hI hl) h

/-- A machine over another: when each step leaves what `f` sees alone or moves it as a step of `N`
does, what `f` sees of a run is a run of `N`. -/
lemma exec_project {τ κ : Type*} {N : Machine τ κ} (f : σ → τ)
    (hstep : ∀ s l s', M.step s l = some s' → f s' = f s ∨ ∃ k, N.step (f s) k = some (f s'))
    {s₀ s : σ} {ls : List ℓ} (h : M.exec s₀ ls = some s) : ∃ ks, N.exec (f s₀) ks = some (f s) := by
  refine M.invariant (I := fun s => ∃ ks, N.exec (f s₀) ks = some (f s)) ⟨[], rfl⟩ ?_ h
  rintro s l s' ⟨ks, hks⟩ hs
  rcases hstep s l s' hs with heq | ⟨k, hk⟩
  · exact ⟨ks, heq ▸ hks⟩
  · exact ⟨ks ++ [k], N.exec_snoc_iff.2 ⟨f s, hks, hk⟩⟩

/-! ## The steps a run performs -/

/-- The run of `ls` from `s₀` performs `l` in state `s`. -/
def Occurs (s₀ : σ) (ls : List ℓ) (s : σ) (l : ℓ) : Prop :=
  ∃ pre post, ls = pre ++ l :: post ∧ M.exec s₀ pre = some s

/-- Every step the run performs meets `G`, a condition on the state before it and its label. -/
def AllSteps (G : σ → ℓ → Prop) (s₀ : σ) (ls : List ℓ) : Prop :=
  ∀ s l, M.Occurs s₀ ls s l → G s l

lemma occurs_snoc_iff {s₀ s : σ} {ls : List ℓ} {l m : ℓ} :
    M.Occurs s₀ (ls ++ [l]) s m ↔ M.Occurs s₀ ls s m ∨ M.exec s₀ ls = some s ∧ m = l := by
  constructor
  · rintro ⟨pre, post, h, hs⟩
    rcases List.eq_nil_or_concat post with rfl | ⟨post', x, rfl⟩
    · obtain ⟨rfl, h⟩ := List.append_inj' h rfl
      exact Or.inr ⟨hs, by simpa using h.symm⟩
    · have h' : ls ++ [l] = (pre ++ m :: post') ++ [x] := by simpa using h
      obtain ⟨rfl, -⟩ := List.append_inj' h' rfl
      exact Or.inl ⟨pre, post', rfl, hs⟩
  · rintro (⟨pre, post, rfl, hs⟩ | ⟨hs, rfl⟩)
    · exact ⟨pre, post ++ [l], by simp, hs⟩
    · exact ⟨ls, [], rfl, hs⟩

lemma allSteps_nil (G : σ → ℓ → Prop) (s₀ : σ) : M.AllSteps G s₀ [] := by
  rintro s l ⟨pre, post, h, -⟩
  simp at h

lemma allSteps_snoc_iff {G : σ → ℓ → Prop} {s₀ : σ} {ls : List ℓ} {l : ℓ} :
    M.AllSteps G s₀ (ls ++ [l]) ↔
      M.AllSteps G s₀ ls ∧ ∀ s, M.exec s₀ ls = some s → G s l := by
  constructor
  · intro h
    exact ⟨fun s m hm => h s m (M.occurs_snoc_iff.2 (Or.inl hm)),
      fun s hs => h s l (M.occurs_snoc_iff.2 (Or.inr ⟨hs, rfl⟩))⟩
  · rintro ⟨h, hl⟩ s m hm
    rcases M.occurs_snoc_iff.1 hm with hm | ⟨hs, rfl⟩
    · exact h s m hm
    · exact hl s hs

lemma AllSteps.of_append {G : σ → ℓ → Prop} {s₀ : σ} {ls ms : List ℓ}
    (h : M.AllSteps G s₀ (ls ++ ms)) : M.AllSteps G s₀ ls := by
  rintro s l ⟨pre, post, rfl, hs⟩
  exact h s l ⟨pre, post ++ ms, by simp, hs⟩

lemma AllSteps.mono {G G' : σ → ℓ → Prop} {s₀ : σ} {ls : List ℓ}
    (h : M.AllSteps G s₀ ls) (hG : ∀ s l, G s l → G' s l) : M.AllSteps G' s₀ ls :=
  fun s l hl => hG s l (h s l hl)

lemma allSteps_cons_iff {G : σ → ℓ → Prop} {s s' : σ} {l : ℓ} {ls : List ℓ}
    (hs' : M.step s l = some s') :
    M.AllSteps G s (l :: ls) ↔ G s l ∧ M.AllSteps G s' ls := by
  constructor
  · intro h
    refine ⟨h s l ⟨[], ls, rfl, rfl⟩, ?_⟩
    rintro t m ⟨pre, post, rfl, ht⟩
    exact h t m ⟨l :: pre, post, rfl, M.exec_cons_iff.2 ⟨s', hs', ht⟩⟩
  · rintro ⟨hl, hls⟩ t m ⟨pre, post, hsplit, ht⟩
    cases pre with
    | nil =>
        cases hsplit
        cases ht
        exact hl
    | cons x pre =>
        cases hsplit
        obtain ⟨t', hstep, ht⟩ := M.exec_cons_iff.1 ht
        rw [hs'] at hstep
        cases hstep
        exact hls t m ⟨pre, post, rfl, ht⟩

/-- Run the list and check a condition at each step. -/
def checkSteps (G : σ → ℓ → Prop) [∀ s l, Decidable (G s l)] : σ → List ℓ → Bool
  | _, [] => true
  | s, l :: ls => decide (G s l) && ((M.step s l).map fun s' => checkSteps G s' ls).getD true

lemma allSteps_of_checkSteps {G : σ → ℓ → Prop} [∀ s l, Decidable (G s l)] {s : σ} {ls : List ℓ}
    (h : M.checkSteps G s ls = true) : M.AllSteps G s ls := by
  induction ls generalizing s with
  | nil => exact M.allSteps_nil G s
  | cons l ls ih =>
      rw [checkSteps, Bool.and_eq_true, decide_eq_true_eq] at h
      rintro t m ⟨pre, post, hsplit, ht⟩
      cases pre with
      | nil =>
          cases hsplit
          cases ht
          exact h.1
      | cons x pre =>
          cases hsplit
          obtain ⟨s', hstep, ht⟩ := M.exec_cons_iff.1 ht
          have hrest : M.checkSteps G s' (pre ++ m :: post) = true := by
            have htail := h.2
            rw [hstep, Option.map_some, Option.getD_some] at htail
            exact htail
          exact ih hrest t m ⟨pre, post, rfl, ht⟩

/-- A condition on the label alone is checked label by label. -/
lemma allSteps_of_forall_mem {G : σ → ℓ → Prop} {s₀ : σ} {ls : List ℓ}
    (h : ∀ l ∈ ls, ∀ s, G s l) : M.AllSteps G s₀ ls := by
  rintro s l ⟨pre, post, rfl, -⟩
  exact h l (by simp) s

/-- A property that survives every step meeting `G` holds after a run of such steps. -/
lemma invariant_of_allSteps {G : σ → ℓ → Prop} {s₀ : σ} {I : σ → Prop} (hinit : I s₀)
    (hstep : ∀ s l s', I s → G s l → M.step s l = some s' → I s') {ls : List ℓ} {s : σ}
    (hG : M.AllSteps G s₀ ls) (h : M.exec s₀ ls = some s) : I s := by
  refine M.exec_induction (P := fun ls s => M.AllSteps G s₀ ls → I s) (fun _ => hinit) ?_ h hG
  intro ls s l s' hs ih hl hall
  obtain ⟨hls, hlast⟩ := M.allSteps_snoc_iff.1 hall
  exact hstep s l s' (ih hls) (hlast s hs) hl

/-- Steps that meet a condition under which they are enabled can all be performed. -/
lemma exec_of_allSteps {G : σ → ℓ → Prop} {s₀ : σ}
    (henabled : ∀ s l, G s l → ∃ s', M.step s l = some s') {ls : List ℓ}
    (hG : M.AllSteps G s₀ ls) : ∃ s, M.exec s₀ ls = some s := by
  induction ls using List.reverseRecOn with
  | nil => exact ⟨s₀, rfl⟩
  | append_singleton ls l ih =>
      obtain ⟨hls, hlast⟩ := M.allSteps_snoc_iff.1 hG
      obtain ⟨s, hs⟩ := ih hls
      obtain ⟨s', hs'⟩ := henabled s l (hlast s hs)
      exact ⟨s', M.exec_snoc_iff.2 ⟨s, hs, hs'⟩⟩

/-- Where the label decides whether a step is enabled, and a property of the state survives every
step, a run goes through if all its labels are of the enabled ones, -/
lemma exec_of_enabled {I : σ → Prop} {G : ℓ → Prop}
    (hstep : ∀ s l, I s → G l → ∃ s', M.step s l = some s' ∧ I s') {s : σ} {ls : List ℓ} (h : I s)
    (hG : ∀ l ∈ ls, G l) : ∃ s', M.exec s ls = some s' ∧ I s' := by
  induction ls generalizing s with
  | nil => exact ⟨s, rfl, h⟩
  | cons l ls ih =>
      obtain ⟨t, ht, hI⟩ := hstep s l h (hG l List.mem_cons_self)
      obtain ⟨s', hs', hI'⟩ := ih hI fun m hm => hG m (List.mem_cons_of_mem l hm)
      exact ⟨s', M.exec_cons_iff.2 ⟨t, ht, hs'⟩, hI'⟩

/-- and only then. -/
lemma forall_enabled_of_exec {I : σ → Prop} {G : ℓ → Prop}
    (hstep : ∀ s l, I s → G l → ∃ s', M.step s l = some s' ∧ I s')
    (hnone : ∀ s l, I s → ¬ G l → M.step s l = none) {s s' : σ} {ls : List ℓ} (h : I s)
    (hs' : M.exec s ls = some s') : ∀ l ∈ ls, G l := by
  induction ls generalizing s with
  | nil => simp
  | cons l ls ih =>
      obtain ⟨t, ht, hls⟩ := M.exec_cons_iff.1 hs'
      have hl : G l := by
        by_contra hl
        exact absurd (ht.symm.trans (hnone s l h hl)) (Option.some_ne_none t)
      obtain ⟨t', ht', hI⟩ := hstep s l h hl
      cases ht.symm.trans ht'
      exact List.forall_mem_cons.2 ⟨hl, ih hI hls⟩

/-- When every state of `I` outside `G` can be left for one of `I` with a smaller measure, by labels
meeting `P`, then `G` is reached from every state of `I` by such labels. -/
lemma exists_exec_of_decreases {I G : σ → Prop} {P : ℓ → Prop} (μ : σ → ℕ)
    (hstep : ∀ s, I s → ¬ G s →
      ∃ ls s', M.exec s ls = some s' ∧ (∀ l ∈ ls, P l) ∧ I s' ∧ μ s' < μ s)
    {s : σ} (h : I s) : ∃ ls s', M.exec s ls = some s' ∧ (∀ l ∈ ls, P l) ∧ I s' ∧ G s' := by
  induction hn : μ s using Nat.strongRecOn generalizing s with
  | ind n ih =>
      by_cases hG : G s
      · exact ⟨[], s, rfl, by simp, h, hG⟩
      · obtain ⟨ls, t, hls, hP, hI, hlt⟩ := hstep s h hG
        obtain ⟨ms, s', hms, hP', hI', hG'⟩ := ih (μ t) (hn ▸ hlt) hI rfl
        exact ⟨ls ++ ms, s', M.exec_append_iff.2 ⟨t, hls, hms⟩,
          List.forall_mem_append.2 ⟨hP, hP'⟩, hI', hG'⟩

/-- A property that survives every step meeting `G` has its say about every step of such a run. -/
lemma allSteps_of_invariant {G H : σ → ℓ → Prop} {s₀ : σ} {I : σ → Prop} (hinit : I s₀)
    (hstep : ∀ s l s', I s → G s l → M.step s l = some s' → I s')
    (hI : ∀ s l, I s → H s l) {ls : List ℓ} (hG : M.AllSteps G s₀ ls) :
    M.AllSteps H s₀ ls := by
  rintro s l ⟨pre, post, rfl, hs⟩
  exact hI s l (M.invariant_of_allSteps hinit hstep (AllSteps.of_append M hG) hs)

/-! ## Traces -/

/-- What `emit` says about the steps of a run, oldest first. -/
def trace (emit : σ → ℓ → List ε) : σ → List ℓ → List ε
  | _, [] => []
  | s, l :: ls => emit s l ++ ((M.step s l).map fun s' => trace emit s' ls).getD []

@[simp] lemma trace_nil (emit : σ → ℓ → List ε) (s : σ) : M.trace emit s [] = [] := rfl

lemma trace_append (emit : σ → ℓ → List ε) {s₀ s : σ} {ls : List ℓ} (ms : List ℓ)
    (h : M.exec s₀ ls = some s) :
    M.trace emit s₀ (ls ++ ms) = M.trace emit s₀ ls ++ M.trace emit s ms := by
  induction ls generalizing s₀ with
  | nil =>
      cases h
      rfl
  | cons l ls ih =>
      obtain ⟨t, ht, h⟩ := M.exec_cons_iff.1 h
      simp only [List.cons_append, trace, ht, Option.map_some, Option.getD_some, ih h,
        List.append_assoc]

lemma trace_snoc (emit : σ → ℓ → List ε) {s₀ s : σ} {ls : List ℓ} (l : ℓ)
    (h : M.exec s₀ ls = some s) :
    M.trace emit s₀ (ls ++ [l]) = M.trace emit s₀ ls ++ emit s l := by
  rw [M.trace_append emit [l] h]
  cases hl : M.step s l <;> simp [trace, hl]

/-- A run in which nothing is emitted emits nothing at first. -/
lemma trace_eq_nil_of_append {emit : σ → ℓ → List ε} {s : σ} {ls ms : List ℓ}
    (h : M.trace emit s (ls ++ ms) = []) : M.trace emit s ls = [] := by
  induction ls generalizing s with
  | nil => rfl
  | cons l ls ih =>
      rw [List.cons_append, trace, List.append_eq_nil_iff] at h
      rw [trace, List.append_eq_nil_iff]
      refine ⟨h.1, ?_⟩
      cases hl : M.step s l with
      | none => rfl
      | some s' =>
          have htail := h.2
          rw [hl] at htail
          exact ih htail

/-- A run emits one entry for each of the labels that emit one. -/
lemma length_trace {emit : σ → ℓ → List ε} {p : ℓ → Bool}
    (hemit : ∀ s l, (emit s l).length = if p l then 1 else 0) {s₀ s : σ} {ls : List ℓ}
    (h : M.exec s₀ ls = some s) : (M.trace emit s₀ ls).length = ls.countP p := by
  refine M.exec_induction (P := fun ls _ => (M.trace emit s₀ ls).length = ls.countP p) rfl ?_ h
  intro ls s l s' hs ih _
  rw [M.trace_snoc emit l hs, List.length_append, ih, hemit, List.countP_append,
    List.countP_singleton]

/-- What enters a buffer and what leaves it: when each step keeps the books, so does a run. -/
lemma trace_buffer {into out : σ → ℓ → List ε} (buffered : σ → List ε)
    {s₀ s : σ} {ls : List ℓ} (h : M.exec s₀ ls = some s)
    (hstep : ∀ s l s', M.step s l = some s' → out s l ++ buffered s' = buffered s ++ into s l) :
    M.trace out s₀ ls ++ buffered s = buffered s₀ ++ M.trace into s₀ ls := by
  refine M.exec_induction (P := fun ls s =>
    M.trace out s₀ ls ++ buffered s = buffered s₀ ++ M.trace into s₀ ls) ?_ ?_ h
  · rw [trace_nil, trace_nil, List.nil_append, List.append_nil]
  · intro ls s l s' hs ih hl
    rw [M.trace_snoc out l hs, M.trace_snoc into l hs, List.append_assoc, hstep s l s' hl,
      ← List.append_assoc, ih, List.append_assoc]

/-- Two emissions that agree at every step performed leave the same trace. -/
lemma trace_congr {emit emit' : σ → ℓ → List ε} {s₀ s : σ} {ls : List ℓ}
    (h : M.exec s₀ ls = some s) (heq : M.AllSteps (fun s l => emit s l = emit' s l) s₀ ls) :
    M.trace emit s₀ ls = M.trace emit' s₀ ls := by
  refine M.exec_induction (P := fun ls _ =>
    M.AllSteps (fun s l => emit s l = emit' s l) s₀ ls →
      M.trace emit s₀ ls = M.trace emit' s₀ ls) (fun _ => rfl) ?_ h heq
  intro ls s l s' hs ih _ hall
  obtain ⟨hls, hl⟩ := M.allSteps_snoc_iff.1 hall
  rw [M.trace_snoc emit l hs, M.trace_snoc emit' l hs, ih hls, hl s hs]

/-- Nothing is emitted exactly when no step performed emits. -/
lemma trace_eq_nil_iff (emit : σ → ℓ → List ε) {s₀ s : σ} {ls : List ℓ}
    (h : M.exec s₀ ls = some s) :
    M.trace emit s₀ ls = [] ↔ M.AllSteps (fun s l => emit s l = []) s₀ ls := by
  refine M.exec_induction
    (P := fun ls _ => M.trace emit s₀ ls = [] ↔ M.AllSteps (fun s l => emit s l = []) s₀ ls)
    (iff_of_true rfl (M.allSteps_nil _ _)) ?_ h
  intro ls s l s' hs ih _
  rw [M.trace_snoc emit l hs, List.append_eq_nil_iff, ih, M.allSteps_snoc_iff]
  refine and_congr_right fun _ => ⟨fun hl t ht => ?_, fun hl => hl s hs⟩
  rw [hs] at ht
  cases ht
  exact hl

end Machine

end ElasticFramework
