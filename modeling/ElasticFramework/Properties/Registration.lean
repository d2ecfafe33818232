import ElasticFramework.Construction.Registration
import Mathlib.Algebra.BigOperators.Group.List.Basic
import Mathlib.Algebra.Order.Group.Defs
import Mathlib.Algebra.Order.Group.Int
import Mathlib.Tactic.Abel

/-!
# What becomes of the registered weights

Between the two accessors another session may write, and what it has added is written over.  When
each `set_weight` finds the weight its call has read, nothing is lost (`registered_weights`); and
when the weights are positive, only then (`registered_weights_iff`), because what is lost does not
come back.
-/

namespace ElasticFramework

namespace NodeWeight

variable {ι K : Type*}

/-- What the calls under way are to add. -/
def pending [AddCommGroup K] (s : NodeWeight ι K) : K := (s.inCall.map RegisterCall.appWeight).sum

/-- A call on the way in. -/
lemma pending_append_singleton [AddCommGroup K] (weight : K) (calls : List (RegisterCall ι K))
    (c : RegisterCall ι K) :
    pending ⟨weight, calls ++ [c]⟩ = pending ⟨weight, calls⟩ + c.appWeight := by
  simp [pending]

/-- A call on the way out. -/
lemma pending_erase [AddCommGroup K] (weight weight' : K) (pre post : List (RegisterCall ι K))
    (c : RegisterCall ι K) :
    pending ⟨weight, pre ++ c :: post⟩ = pending ⟨weight', pre ++ post⟩ + c.appWeight := by
  simp only [pending, List.map_append, List.map_cons, List.sum_append, List.sum_cons]
  abel

variable [DecidableEq ι]

/-- A call that writes finds the weight it has read. -/
def Fresh (s : NodeWeight ι K) : RegisterStep ι K → Prop
  | .weight _ _ => True
  | .setWeight session => ∀ c ∈ s.callOf session, c.read = s.weight

instance [DecidableEq K] (s : NodeWeight ι K) : DecidablePred s.Fresh := fun l =>
  match l with
  | .weight _ _ => isTrue trivial
  | .setWeight session =>
    inferInstanceAs (Decidable (∀ c ∈ s.callOf session, c.read = s.weight))

/-! ## One step -/

section Steps

variable {s s' : NodeWeight ι K} {session : ι}

/-- The call a session is in, among the others. -/
lemma callOf_split {c : RegisterCall ι K} (h : s.callOf session = some c) :
    ∃ pre post, s.inCall = pre ++ c :: post ∧
      s.inCall.eraseP (fun c => c.session == session) = pre ++ post := by
  obtain ⟨hc, pre, post, hsplit, hpre⟩ := List.find?_eq_some_iff_append.1 h
  refine ⟨pre, post, hsplit, ?_⟩
  rw [hsplit, List.eraseP_append_right _ (by simpa using hpre)]
  simp [hc]

/-- The two kinds of step: a call begins with what it reads, or ends with what it writes. -/
lemma step_cases [AddCommGroup K] {l : RegisterStep ι K} (h : machine.step s l = some s') :
    (∃ session appWeight, l = .weight session appWeight ∧
        s' = { s with inCall := s.inCall ++ [⟨session, appWeight, s.weight⟩] }) ∨
      ∃ session c pre post, l = .setWeight session ∧ s.callOf session = some c ∧
        s.inCall = pre ++ c :: post ∧
          s' = { weight := c.read + c.appWeight, inCall := pre ++ post } := by
  cases l with
  | weight session appWeight =>
      simp only [machine] at h
      split at h
      · cases h
        exact Or.inl ⟨session, appWeight, rfl, rfl⟩
      · cases h
  | setWeight session =>
      simp only [machine, Option.map_eq_some_iff] at h
      obtain ⟨c, hc, rfl⟩ := h
      obtain ⟨pre, post, hsplit, herase⟩ := callOf_split hc
      exact Or.inr ⟨session, c, pre, post, rfl, hc, hsplit, by rw [herase]⟩

end Steps

/-! ## Runs -/

/-- What the weight should be, when the calls under way have added nothing. -/
def due [AddCommGroup K] (w₀ : K) (ls : List (RegisterStep ι K)) (s : NodeWeight ι K) : K :=
  w₀ + (machine.trace registered (idle w₀) ls).sum - s.pending

section Runs

variable [AddCommGroup K] {w₀ : K} {ls : List (RegisterStep ι K)} {s s' : NodeWeight ι K}

/-- A step changes what is due by the weight it writes. -/
lemma due_snoc {l : RegisterStep ι K} (h : machine.exec (idle w₀) ls = some s)
    (hstep : machine.step s l = some s') :
    (∃ session appWeight, l = .weight session appWeight ∧
        s' = { s with inCall := s.inCall ++ [⟨session, appWeight, s.weight⟩] } ∧
        due w₀ (ls ++ [l]) s' = due w₀ ls s) ∨
      ∃ session c pre post, l = .setWeight session ∧ s.callOf session = some c ∧
        s.inCall = pre ++ c :: post ∧
          s' = { weight := c.read + c.appWeight, inCall := pre ++ post } ∧
            due w₀ (ls ++ [l]) s' = due w₀ ls s + c.appWeight := by
  have htrace := machine.trace_snoc registered l h
  rcases step_cases hstep with ⟨session, appWeight, rfl, rfl⟩ |
    ⟨session, c, pre, post, rfl, hc, hsplit, rfl⟩
  · refine Or.inl ⟨session, appWeight, rfl, rfl, ?_⟩
    rw [due, due, htrace, pending_append_singleton]
    simp only [registered, List.sum_append, List.sum_singleton]
    abel
  · refine Or.inr ⟨session, c, pre, post, rfl, hc, hsplit, rfl, ?_⟩
    have hpending : s.pending = pending ⟨c.read + c.appWeight, pre ++ post⟩ + c.appWeight := by
      obtain ⟨weight, calls⟩ := s
      cases hsplit
      exact pending_erase _ _ _ _ _
    rw [due, due, htrace, hpending]
    simp only [registered, List.append_nil]
    abel

lemma due_returned (hreturned : s.inCall = []) :
    due w₀ ls s = w₀ + (machine.trace registered (idle w₀) ls).sum := by
  rw [due, pending, hreturned, List.map_nil, List.sum_nil, sub_zero]

/-- While every call writes on top of what it has read, the weight is what is due. -/
lemma weight_eq_due (h : machine.exec (idle w₀) ls = some s)
    (hfresh : machine.AllSteps Fresh (idle w₀) ls) : s.weight = due w₀ ls s := by
  refine machine.exec_induction (P := fun ls s =>
    machine.AllSteps Fresh (idle w₀) ls → s.weight = due w₀ ls s) ?_ ?_ h hfresh
  · intro _
    simp [due, idle, pending]
  · intro ls s l s' hs ih hl hall
    obtain ⟨hls, hlast⟩ := machine.allSteps_snoc_iff.1 hall
    have hweight := ih hls
    rcases due_snoc hs hl with ⟨session, appWeight, rfl, rfl, hdue⟩ |
      ⟨session, c, pre, post, rfl, hc, -, rfl, hdue⟩
    · rw [hdue]
      exact hweight
    · rw [hdue, ← hweight, ← hlast s hs c hc]

/-- The weights of the calls under way are among those that were registered. -/
lemma appWeight_mem (h : machine.exec (idle w₀) ls = some s) :
    ∀ c ∈ s.inCall, RegisterStep.weight c.session c.appWeight ∈ ls := by
  refine machine.exec_induction (P := fun ls s =>
    ∀ c ∈ s.inCall, RegisterStep.weight c.session c.appWeight ∈ ls) (by simp [idle]) ?_ h
  intro ls s l s' _ ih hl c hc
  rcases step_cases hl with ⟨session, appWeight, rfl, rfl⟩ |
    ⟨session, d, pre, post, rfl, -, hsplit, rfl⟩
  · rcases List.mem_append.1 hc with hc | hc
    · exact List.mem_append_left _ (ih c hc)
    · rw [List.mem_singleton.1 hc]
      simp
  · have hmem : c ∈ s.inCall := by
      rw [hsplit, List.mem_append, List.mem_cons]
      exact (List.mem_append.1 hc).imp_right Or.inr
    exact List.mem_append_left _ (ih c hmem)

/-- **No weight is lost** in a run in which every `set_weight` finds the weight its call has read:
when all calls have returned, the node has its first weight and those of the applications. -/
theorem registered_weights (h : machine.exec (idle w₀) ls = some s)
    (hfresh : machine.AllSteps Fresh (idle w₀) ls) (hreturned : s.inCall = []) :
    s.weight = w₀ + (machine.trace registered (idle w₀) ls).sum := by
  rw [weight_eq_due h hfresh, due_returned hreturned]

end Runs

/-- One session after the other. -/
theorem registered_weights_serial :
    ∃ s : NodeWeight ℕ ℤ, machine.exec (idle 0)
        [.weight 0 1, .setWeight 0, .weight 1 2, .setWeight 1] = some s ∧
      s.weight = 0 + (machine.trace registered (idle 0)
        [.weight 0 1, .setWeight 0, .weight 1 2, .setWeight 1]).sum := by
  have hexec : machine.exec (idle (0 : ℤ))
      [.weight 0 1, .setWeight 0, .weight 1 2, .setWeight (1 : ℕ)] = some (idle 3) := by decide
  refine ⟨_, hexec, registered_weights hexec (machine.allSteps_of_checkSteps ?_) rfl⟩
  decide

/-- Two sessions at the same time: what the first adds is written over. -/
theorem registration_lost :
    ¬ ∀ (w₀ : ℤ) (ls : List (RegisterStep ℕ ℤ)) (s : NodeWeight ℕ ℤ),
      machine.exec (idle w₀) ls = some s → s.inCall = [] →
        s.weight = w₀ + (machine.trace registered (idle w₀) ls).sum := by
  intro h
  have hexec : machine.exec (idle (0 : ℤ))
      [.weight 0 1, .weight 1 2, .setWeight 0, .setWeight (1 : ℕ)] = some (idle 2) := by decide
  have hsum := h 0 _ _ hexec rfl
  revert hsum
  decide

/-! ## What is lost stays lost -/

section Order

variable [AddCommGroup K] [LinearOrder K] {w₀ : K} {ls : List (RegisterStep ι K)}
  {s s' : NodeWeight ι K}

/-- The weight and what the calls under way have read, against what is due: so far all is well, or
it will not be well again. -/
def Ledger (w₀ : K) (ls : List (RegisterStep ι K)) (s : NodeWeight ι K) : Prop :=
  (machine.AllSteps Fresh (idle w₀) ls ∧ s.weight = due w₀ ls s ∧
      ∀ c ∈ s.inCall, c.read ≤ due w₀ ls s) ∨
    (¬ machine.AllSteps Fresh (idle w₀) ls ∧ s.weight < due w₀ ls s ∧
      ∀ c ∈ s.inCall, c.read < due w₀ ls s)

/-- A call that begins reads the weight there is. -/
lemma Ledger.weight {session : ι} {appWeight : K} (hledger : Ledger w₀ ls s)
    (hdue : due w₀ (ls ++ [.weight session appWeight])
      { s with inCall := s.inCall ++ [⟨session, appWeight, s.weight⟩] } = due w₀ ls s) :
    Ledger w₀ (ls ++ [.weight session appWeight])
      { s with inCall := s.inCall ++ [⟨session, appWeight, s.weight⟩] } := by
  have hall : machine.AllSteps Fresh (idle w₀) (ls ++ [.weight session appWeight]) ↔
      machine.AllSteps Fresh (idle w₀) ls := by
    rw [machine.allSteps_snoc_iff]
    exact and_iff_left fun _ _ => trivial
  unfold Ledger
  rw [hall, hdue]
  simp only [List.mem_append, List.mem_singleton]
  rcases hledger with ⟨hfresh, hweight, hread⟩ | ⟨hstale, hweight, hread⟩
  · refine Or.inl ⟨hfresh, hweight, ?_⟩
    rintro c (hc | rfl)
    · exact hread c hc
    · exact hweight.le
  · refine Or.inr ⟨hstale, hweight, ?_⟩
    rintro c (hc | rfl)
    · exact hread c hc
    · exact hweight

variable [IsOrderedAddMonoid K]

/-- A call that ends on what it has read adds to it; one that does not loses what was added since.
-/
lemma Ledger.setWeight {session : ι} {c : RegisterCall ι K} {pre post : List (RegisterCall ι K)}
    (h : machine.exec (idle w₀) ls = some s) (hledger : Ledger w₀ ls s)
    (hc : s.callOf session = some c) (hsplit : s.inCall = pre ++ c :: post)
    (hpos : 0 < c.appWeight)
    (hdue : due w₀ (ls ++ [.setWeight session])
      { weight := c.read + c.appWeight, inCall := pre ++ post } = due w₀ ls s + c.appWeight) :
    Ledger w₀ (ls ++ [.setWeight session])
      { weight := c.read + c.appWeight, inCall := pre ++ post } := by
  have hall : machine.AllSteps Fresh (idle w₀) (ls ++ [.setWeight session]) ↔
      machine.AllSteps Fresh (idle w₀) ls ∧ c.read = s.weight := by
    rw [machine.allSteps_snoc_iff]
    refine and_congr_right fun _ => ⟨fun hlast => hlast s h c hc, fun heq t ht d hd => ?_⟩
    rw [h] at ht
    cases ht
    rw [hc] at hd
    cases hd
    exact heq
  have hmem : c ∈ s.inCall := by
    rw [hsplit]
    simp
  have hothers : ∀ d ∈ pre ++ post, d ∈ s.inCall := by
    intro d hd
    rw [hsplit, List.mem_append, List.mem_cons]
    exact (List.mem_append.1 hd).imp_right Or.inr
  have hmore : due w₀ ls s < due w₀ ls s + c.appWeight := lt_add_of_pos_right _ hpos
  unfold Ledger
  rw [hall, hdue]
  dsimp only
  rcases hledger with ⟨hfresh, hweight, hread⟩ | ⟨hstale, hweight, hread⟩
  · by_cases heq : c.read = s.weight
    · refine Or.inl ⟨⟨hfresh, heq⟩, by rw [heq, hweight], fun d hd => ?_⟩
      exact (hread d (hothers d hd)).trans hmore.le
    · have hlt : c.read < due w₀ ls s :=
        lt_of_le_of_ne (hread c hmem) fun h => heq (h.trans hweight.symm)
      refine Or.inr ⟨fun h => heq h.2, add_lt_add_left hlt _, fun d hd => ?_⟩
      exact (hread d (hothers d hd)).trans_lt hmore
  · refine Or.inr ⟨fun h => hstale h.1, add_lt_add_left (hread c hmem) _, fun d hd => ?_⟩
    exact (hread d (hothers d hd)).trans hmore

lemma ledger_of_exec (h : machine.exec (idle w₀) ls = some s)
    (hpos : ∀ session appWeight, .weight session appWeight ∈ ls → 0 < appWeight) :
    Ledger w₀ ls s := by
  refine machine.exec_induction (P := fun ls s =>
    (∀ session appWeight, .weight session appWeight ∈ ls → 0 < appWeight) → Ledger w₀ ls s)
    ?_ ?_ h hpos
  · intro _
    exact Or.inl ⟨machine.allSteps_nil _ _, by simp [due, idle, pending], by simp [idle]⟩
  · intro ls s l s' hs ih hl hpos
    have hledger := ih fun session appWeight hmem =>
      hpos session appWeight (List.mem_append_left _ hmem)
    rcases due_snoc hs hl with ⟨session, appWeight, rfl, rfl, hdue⟩ |
      ⟨session, c, pre, post, rfl, hc, hsplit, rfl, hdue⟩
    · exact hledger.weight hdue
    · have hmem : c ∈ s.inCall := by
        rw [hsplit]
        simp
      exact hledger.setWeight hs hc hsplit
        (hpos _ _ (List.mem_append_left _ (appWeight_mem hs c hmem))) hdue

/-- Of positive weights none is lost if and only if every `set_weight` finds the weight its call
has read. -/
theorem registered_weights_iff (h : machine.exec (idle w₀) ls = some s)
    (hpos : ∀ session appWeight, .weight session appWeight ∈ ls → 0 < appWeight)
    (hreturned : s.inCall = []) :
    s.weight = w₀ + (machine.trace registered (idle w₀) ls).sum ↔
      machine.AllSteps Fresh (idle w₀) ls := by
  have hdue : due w₀ ls s = _ := due_returned hreturned
  refine ⟨fun hweight => ?_, fun hfresh => (weight_eq_due h hfresh).trans hdue⟩
  rcases ledger_of_exec h hpos with ⟨hfresh, -, -⟩ | ⟨-, hlost, -⟩
  · exact hfresh
  · rw [hdue, ← hweight] at hlost
    exact absurd hlost (lt_irrefl _)

end Order

/-- The two sessions of `registration_lost`: some `set_weight` does not find what its call has
read. -/
theorem registered_weights_iff_overlapping :
    ¬ machine.AllSteps Fresh (idle (0 : ℤ))
      [.weight 0 1, .weight 1 2, .setWeight 0, .setWeight (1 : ℕ)] := by
  have hexec : machine.exec (idle (0 : ℤ))
      [.weight 0 1, .weight 1 2, .setWeight 0, .setWeight (1 : ℕ)] = some (idle 2) := by decide
  have hpos : ∀ (session : ℕ) (appWeight : ℤ), RegisterStep.weight session appWeight ∈
      [.weight 0 1, .weight 1 2, .setWeight 0, .setWeight 1] → 0 < appWeight := by
    intro session appWeight hmem
    simp only [List.mem_cons, RegisterStep.weight.injEq, reduceCtorEq, List.not_mem_nil,
      or_false] at hmem
    rcases hmem with ⟨-, rfl⟩ | ⟨-, rfl⟩ <;> decide
  rw [← registered_weights_iff hexec hpos rfl]
  decide

end NodeWeight

end ElasticFramework
