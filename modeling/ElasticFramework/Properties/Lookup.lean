import ElasticFramework.Properties.Direction

/-!
# Looking up nodes

`GetCN` is called without a lock, with keys that come from an earlier locked section or straight
from a message, and fails an assertion when there is no such node.  `Dispatcher.Finds` says of a
step that it is no such call.  `Dispatcher.Orderly` is about what comes before: the answers of
`Dispatch` and `chooseBestCN` are nodes, a load report is about a node, and no node goes away while
a handler is about to look it up.  `Dispatcher.Registered`, that every key a handler holds is
registered, is the invariant in between.

When `Dispatch` has a node to answer with depends on its arithmetic.  In exact arithmetic, with
capacities that are positive and weights that are not negative, it is when there is one
(`answers_iff`).

## Results

`lookups_find`, for every interleaving of orderly steps, and `nothing_registered` for a client that
comes before the first node.
-/

namespace ElasticFramework

universe u

variable {C : Type*} {K : Type u} [Arith K]

/-! ## The answers -/

namespace Registry

/-- Some node comes to more than `-1` for a client. -/
def Answers (r : Registry K) : Prop := ∃ x ∈ r.CNs, -1 < r.cosValue 1 x.2

/-- Some node is registered. -/
def HasNode (r : Registry K) : Prop := r.CNs ≠ []

variable {r : Registry K}

/-- `Dispatch` returns a node when some node comes to more than `-1`. -/
lemma dispatch_mem_ids (h : r.Answers) : r.dispatch 1 ∈ r.ids := by
  obtain ⟨x, hx, hlt⟩ := h
  obtain ⟨n, hn⟩ := bestFrom_some_of_lt (p := fun _ => true)
    (f := fun x : ℤ × CNInfo K => r.cosValue 1 x.2) hx rfl hlt
  have hmem := (bestFrom_mem hn).1
  rw [dispatch, hn]
  exact List.mem_map.2 ⟨n, hmem, rfl⟩

/-- In exact arithmetic every node does. -/
lemma Priced.answers_iff {r : Registry ℝ} (h : r.Priced) : r.Answers ↔ r.HasNode := by
  constructor
  · rintro ⟨x, hx, -⟩
    exact List.ne_nil_of_mem hx
  · intro hne
    obtain ⟨x, hx⟩ := List.exists_mem_of_ne_nil _ hne
    have hweight := h.weight x hx
    refine ⟨x, hx, neg_one_lt_zero.trans_le ?_⟩
    rw [h.cosValue_eq]
    positivity

omit [Arith K] in
/-- The cells of `chooseBestCN` that are written. -/
lemma chooseBestCN_mem_ids {junk : ℕ → ℤ} {i : ℕ} (hi : i < r.ids.length) :
    r.chooseBestCN junk i ∈ r.ids := by
  rw [chooseBestCN, List.getElem?_eq_getElem hi]
  exact List.getElem_mem hi

end Registry

/-! ## Steps -/

namespace Dispatcher

/-- The step is not a `GetCN` without a node. -/
def Finds (s : Dispatcher C K) : DispatcherStep C K → Prop
  | .getCN c => ∀ key keys, (s.thread c).keys = key :: keys → (s.registry.getCN key).isSome
  | _ => True

/-- A request is for nodes there are, and a node does not go away in between. -/
def Orderly (binds : Registry K → Prop) (s : Dispatcher C K) : DispatcherStep C K → Prop
  | .receive _ .getBindingCN _ => binds s.registry
  | .receive _ (.loadInfo cnId _ _) _ => cnId ∈ s.registry.ids
  | .receive _ (.getBestCN levelCnt) _ => levelCnt = s.registry.CNs.length
  | .close c orderly => orderly = true → (s.thread c).clientType = .cn →
    ∀ c', (s.thread c).cnId ∉ (s.thread c').keys
  | _ => True

/-- The keys the handlers hold are registered. -/
def Registered (s : Dispatcher C K) : Prop :=
  ∀ c, ∀ key ∈ (s.thread c).keys, key ∈ s.registry.ids

omit [Arith K]

lemma Registered.finds {s : Dispatcher C K} (h : s.Registered) (l : DispatcherStep C K) :
    s.Finds l := by
  cases l with
  | getCN c =>
      intro key keys hkeys
      exact Registry.isSome_getCN_iff.2 (h c key (by rw [hkeys]; exact List.mem_cons_self ..))
  | _ => trivial

variable [DecidableEq C]

/-- One thread gets other keys, and no registered key is lost. -/
lemma Registered.setThread {s : Dispatcher C K} (h : s.Registered) {c : C} {t : RunThread}
    {r : Registry K} (hids : ∀ id ∈ s.registry.ids, id ∈ r.ids) (ht : ∀ key ∈ t.keys, key ∈ r.ids) :
    Registered { s.setThread c t with registry := r } := by
  intro c' key hkey
  change key ∈ ((s.setThread c t).thread c').keys at hkey
  by_cases hc : c = c'
  · subst hc
    rw [thread_setThread_self] at hkey
    exact ht key hkey
  · rw [thread_setThread_of_ne t hc] at hkey
    exact hids key (h c' key hkey)

variable [Arith K] {s s' : Dispatcher C K} {l : DispatcherStep C K}

lemma isSome_getCN_iff {c : C} : (s.getCN c).isSome ↔ (s.thread c).keys ≠ [] := by
  unfold Dispatcher.getCN
  split
  · simp [*]
  · split <;> simp [*]

lemma Registered.handle (h : s.Registered) {c : C} {m : DispatcherMsg K} {junk : ℕ → ℤ}
    (hkeys : (s.thread c).keys = []) (hm : s.Orderly Registry.Answers (.receive c m junk)) :
    (s.handle c m junk).Registered := by
  have hnone : ∀ {r : Registry K}, ∀ key ∈ (s.thread c).keys, key ∈ r.ids := by
    intro r key hkey
    rw [hkeys] at hkey
    cases hkey
  cases m with
  | getBindingCN =>
      refine h.setThread (fun _ hid => hid) fun key hkey => ?_
      rw [List.mem_singleton.1 hkey]
      exact Registry.dispatch_mem_ids hm
  | loadInfo cnId weight usedTime =>
      refine h.setThread (by simp) fun key hkey => ?_
      have hcnId : cnId ∈ s.registry.ids := hm
      rw [List.mem_singleton.1 hkey]
      simpa using hcnId
  | cnReg capacity =>
      refine h.setThread (fun id hid => ?_) hnone
      rw [Registry.ids_addCN]
      exact List.mem_append_left _ hid
  | getBestCN levelCnt =>
      have hlevel : levelCnt = s.registry.CNs.length := hm
      simp only [Dispatcher.handle]
      split
      · exact h
      · refine h.setThread (fun _ hid => hid) fun key hkey => ?_
        obtain ⟨i, hi, rfl⟩ := List.mem_map.1 hkey
        refine Registry.chooseBestCN_mem_ids ?_
        have hlt := List.mem_range.1 hi
        simpa [hlevel, Registry.ids] using hlt
  | updateScore cnId => exact h
  | unknown => exact h

lemma Registered.step (h : s.Registered) (hl : s.Orderly Registry.Answers l)
    (hs : s.Moves l s') :
    s'.Registered := by
  cases hs with
  | receive hidle => exact h.handle hidle.2 hl
  | @found c key keys hkeys hmem =>
      have hids : ∀ id ∈ s.registry.ids, id ∈ (s.found c key keys).registry.ids :=
        fun id hid => by rwa [ids_found]
      refine h.setThread hids fun key' hkey' => hids key' (h c key' ?_)
      rw [hkeys]
      exact List.mem_cons_of_mem _ hkey'
  | missed hkeys hmem => exact h
  | @leave c orderly hidle hstay => exact h.setThread (fun _ hid => hid) (h c)
  | @deregister c hidle hcn =>
      intro c' key hkey
      change key ∈ ((s.leave c).thread c').keys at hkey
      rw [keys_leave] at hkey
      refine Registry.mem_ids_delCN.2 ⟨h c' key hkey, ?_⟩
      rintro rfl
      exact hl rfl hcn c' hkey
  | reorder => exact fun c key hkey => Registry.mem_ids_reorder.2 (h c key hkey)

end Dispatcher

section Runs

variable [DecidableEq C]

lemma finds_of_orderly {s : Dispatcher C K} {ls : List (DispatcherStep C K)}
    (h : dispatcher.exec Dispatcher.init ls = some s)
    (hls : dispatcher.AllSteps (Dispatcher.Orderly Registry.Answers) Dispatcher.init ls) :
    dispatcher.AllSteps Dispatcher.Finds Dispatcher.init ls ∧ s.Registered := by
  have hinit : (Dispatcher.init : Dispatcher C K).Registered := by
    intro c key hkey
    cases hkey
  have hstep : ∀ s l s', Dispatcher.Registered (C := C) (K := K) s →
      s.Orderly Registry.Answers l → dispatcher.step s l = some s' → s'.Registered :=
    fun _ _ _ hs hl hstep => hs.step hl (Dispatcher.moves_of_step hstep).2
  exact ⟨dispatcher.allSteps_of_invariant hinit hstep (fun _ l hs => hs.finds l) hls,
    dispatcher.invariant_of_allSteps hinit hstep hls h⟩

/-- In exact arithmetic it is enough that there is a node. -/
lemma orderly_of_hasNode {ls : List (DispatcherStep C ℝ)}
    (hsound : ∀ l ∈ ls, l.Receives DispatcherMsg.Sound)
    (hls : dispatcher.AllSteps (Dispatcher.Orderly Registry.HasNode) Dispatcher.init ls) :
    dispatcher.AllSteps (Dispatcher.Orderly Registry.Answers) Dispatcher.init ls := by
  intro s l hoccurs
  have horderly := hls s l hoccurs
  obtain ⟨pre, post, rfl, hs⟩ := hoccurs
  have hp : s.registry.Priced := Registry.Priced.stable.run Registry.Priced.init
    (fun l hl => hsound l (List.mem_append_left _ hl)) hs
  cases l with
  | receive c m junk =>
      cases m with
      | getBindingCN => exact hp.answers_iff.2 horderly
      | _ => exact horderly
  | _ => exact horderly

/-- **Lookups find their nodes, if the steps are orderly.**  In every interleaving of orderly
steps no `GetCN` is without a node, and every key that is yet to be looked up is registered.  A
client is answered when some node comes to more than `-1`; in exact arithmetic, with positive
capacities and weights that are not negative, when some node is registered. -/
theorem lookups_find :
    (∀ {K : Type u} [Arith K] {s : Dispatcher C K} {ls : List (DispatcherStep C K)},
      dispatcher.exec Dispatcher.init ls = some s →
      dispatcher.AllSteps (Dispatcher.Orderly Registry.Answers) Dispatcher.init ls →
        dispatcher.AllSteps Dispatcher.Finds Dispatcher.init ls ∧ s.Registered) ∧
    ∀ {s : Dispatcher C ℝ} {ls : List (DispatcherStep C ℝ)},
      dispatcher.exec Dispatcher.init ls = some s →
      (∀ l ∈ ls, l.Receives DispatcherMsg.Sound) →
      dispatcher.AllSteps (Dispatcher.Orderly Registry.HasNode) Dispatcher.init ls →
        dispatcher.AllSteps Dispatcher.Finds Dispatcher.init ls ∧ s.Registered :=
  ⟨finds_of_orderly, fun h hsound hls => finds_of_orderly h (orderly_of_hasNode hsound hls)⟩

end Runs

/-! ## A node, and none -/

/-- A node registers and reports.  A client asks for it on another connection, and the handler of
the report looks it up. -/
def reportAndBind : List (DispatcherStep Bool ℝ) :=
  [.receive false (.cnReg 1) 0, .receive false (.loadInfo 0 1 1) 0,
    .receive true .getBindingCN 0, .getCN false]

/-- Then the handler of the request looks up the node that it was given. -/
theorem lookups_find_run :
    dispatcher.AllSteps Dispatcher.Finds Dispatcher.init (reportAndBind ++ [.getCN true]) ∧
      ∃ s, dispatcher.exec Dispatcher.init (reportAndBind ++ [.getCN true]) = some s ∧
        s.Registered := by
  obtain ⟨s, hrun⟩ :
      ∃ s, dispatcher.exec Dispatcher.init (reportAndBind ++ [.getCN true]) = some s := by
    obtain ⟨s₀, hs₀, hdown, hkeys⟩ : ∃ s₀, dispatcher.exec Dispatcher.init reportAndBind = some s₀ ∧
        s₀.down = false ∧ (s₀.thread true).keys ≠ [] := ⟨_, rfl, rfl, List.cons_ne_nil _ _⟩
    obtain ⟨s, hs⟩ := Option.isSome_iff_exists.1 (Dispatcher.isSome_getCN_iff.2 hkeys)
    refine ⟨s, dispatcher.exec_snoc_iff.2 ⟨s₀, hs₀, ?_⟩⟩
    simpa [dispatcher, hdown, Dispatcher.move] using hs
  have hls : dispatcher.AllSteps (Dispatcher.Orderly Registry.HasNode) Dispatcher.init
      (reportAndBind ++ [.getCN true]) := by
    refine dispatcher.allSteps_snoc_iff.2 ⟨?_, fun _ _ => trivial⟩
    refine (dispatcher.allSteps_cons_iff rfl).2 ⟨trivial, ?_⟩
    refine (dispatcher.allSteps_cons_iff rfl).2 ⟨List.mem_singleton_self (0 : ℤ), ?_⟩
    refine (dispatcher.allSteps_cons_iff rfl).2 ⟨List.cons_ne_nil _ _, ?_⟩
    exact (dispatcher.allSteps_cons_iff rfl).2 ⟨trivial, dispatcher.allSteps_nil _ _⟩
  have hsound : ∀ l ∈ reportAndBind ++ [.getCN true], l.Receives DispatcherMsg.Sound := by
    simp [reportAndBind, DispatcherStep.Receives, DispatcherMsg.Sound]
  obtain ⟨hfinds, hregistered⟩ := lookups_find.{0}.2 hrun hsound hls
  exact ⟨hfinds, s, hrun, hregistered⟩

/-- A client that comes first is given the node `-1`, and the process is over. -/
theorem nothing_registered :
    ∃ s, (dispatcher (C := Unit) (K := ℝ)).exec Dispatcher.init
        [.receive () .getBindingCN 0, .getCN ()] = some s ∧ s.down = true ∧
      ¬ dispatcher.AllSteps Dispatcher.Finds (Dispatcher.init : Dispatcher Unit ℝ)
        [.receive () .getBindingCN 0, .getCN ()] := by
  refine ⟨_, rfl, rfl, fun h => ?_⟩
  have hlast := ((dispatcher.allSteps_cons_iff rfl).1 ((dispatcher.allSteps_cons_iff rfl).1 h).2).1
  cases hlast (-1) [] rfl

end ElasticFramework
