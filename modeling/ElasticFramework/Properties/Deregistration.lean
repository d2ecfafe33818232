import ElasticFramework.Properties.Nodes
import Mathlib.Data.Real.Basic

/-!
# Taking nodes off

The nodes of a connection are to go when it ends, and no others.  `Run` keeps one `client_type` and
one `cn_id`, and gives the latter to `DelCN` on one of its two ways out: what it takes off is the
last node registered, if nothing but reports has come since and the peer has closed the connection.

`nodes c ls` are the nodes that were registered on `c`, `messages c ls` what was received there.
`Booked` is the invariant that ties them to the thread and to the registry.

## Results

`deregisters_iff`, with the condition on the messages of the connection alone, and `left_behind`
for a connection that breaks.
-/

namespace ElasticFramework

variable {C K : Type*}

/-! ## What was received -/

/-- The message registers a node. -/
def DispatcherMsg.registers : DispatcherMsg K → Bool
  | .cnReg _ => true
  | _ => false

/-- The message is one of a client that looks for nodes. -/
def DispatcherMsg.asks : DispatcherMsg K → Bool
  | .getBindingCN => true
  | .getBestCN _ => true
  | _ => false

/-- `client_type` after a message. -/
def ClientType.after (t : ClientType) : DispatcherMsg K → ClientType
  | .getBindingCN => .app
  | .getBestCN _ => .app
  | .cnReg _ => .cn
  | _ => t

/-- One node is registered, and no nodes are asked for after that. -/
def OneNode (ms : List (DispatcherMsg K)) : Prop :=
  ∃ pre capacity post, ms = pre ++ .cnReg capacity :: post ∧ (∀ m ∈ pre, m.registers = false) ∧
    ∀ m ∈ post, m.registers = false ∧ m.asks = false

/-- No node is registered, or one that an orderly end takes off. -/
def CleansUp (ms : List (DispatcherMsg K)) (orderly : Bool) : Prop :=
  (∀ m ∈ ms, m.registers = false) ∨ orderly = true ∧ OneNode ms

/-- Without a registration a connection does not become one of a node. -/
lemma of_foldl_after_eq_cn {t : ClientType} {ms : List (DispatcherMsg K)}
    (hms : ∀ m ∈ ms, m.registers = false) (h : ms.foldl ClientType.after t = .cn) :
    t = .cn ∧ ∀ m ∈ ms, m.asks = false := by
  induction ms generalizing t with
  | nil => exact ⟨h, by simp⟩
  | cons m ms ih =>
      obtain ⟨hm, hrest⟩ := List.forall_mem_cons.1 hms
      obtain ⟨ht, hasks⟩ := ih hrest h
      rw [List.forall_mem_cons]
      cases m with
      | cnReg capacity => cases hm
      | getBindingCN => cases ht
      | getBestCN levelCnt => cases ht
      | _ => exact ⟨ht, rfl, hasks⟩

lemma foldl_after_of_not {t : ClientType} {ms : List (DispatcherMsg K)}
    (hms : ∀ m ∈ ms, m.registers = false ∧ m.asks = false) : ms.foldl ClientType.after t = t := by
  induction ms with
  | nil => rfl
  | cons m ms ih =>
      obtain ⟨hm, hrest⟩ := List.forall_mem_cons.1 hms
      have hafter : ClientType.after t m = t := by
        cases m with
        | cnReg capacity => cases hm.1
        | getBindingCN => cases hm.2
        | getBestCN levelCnt => cases hm.2
        | _ => rfl
      rw [List.foldl_cons, hafter, ih hrest]

/-- `OneNode`, by what `Run` keeps and what it should have counted. -/
lemma oneNode_iff {ms : List (DispatcherMsg K)} :
    OneNode ms ↔ ms.foldl ClientType.after .unset = .cn ∧
      ms.countP DispatcherMsg.registers = 1 := by
  constructor
  · rintro ⟨pre, capacity, post, rfl, hpre, hpost⟩
    refine ⟨?_, ?_⟩
    · rw [List.foldl_append, List.foldl_cons]
      exact foldl_after_of_not hpost
    · have hpre' : pre.countP DispatcherMsg.registers = 0 :=
        List.countP_eq_zero.2 fun m hm => Bool.eq_false_iff.1 (hpre m hm)
      have hpost' : post.countP DispatcherMsg.registers = 0 :=
        List.countP_eq_zero.2 fun m hm => Bool.eq_false_iff.1 (hpost m hm).1
      rw [List.countP_append, List.countP_cons, hpre', hpost']
      rfl
  · rintro ⟨hrole, hcount⟩
    obtain ⟨m, hm, hreg⟩ := List.countP_pos_iff.1 (hcount ▸ Nat.one_pos)
    obtain ⟨pre, post, rfl⟩ := List.append_of_mem hm
    rw [List.countP_append, List.countP_cons, if_pos hreg] at hcount
    have hpre : ∀ m ∈ pre, m.registers = false := fun m hm =>
      Bool.eq_false_iff.2 (List.countP_eq_zero.1 (by omega) m hm)
    have hpost : ∀ m ∈ post, m.registers = false := fun m hm =>
      Bool.eq_false_iff.2 (List.countP_eq_zero.1 (by omega) m hm)
    cases m with
    | cnReg capacity =>
        rw [List.foldl_append, List.foldl_cons] at hrole
        exact ⟨pre, capacity, post, rfl, hpre,
          fun m hm => ⟨hpost m hm, (of_foldl_after_eq_cn hpost hrole).2 m hm⟩⟩
    | _ => cases hreg

/-! ## Connections -/

section Connections

variable [DecidableEq C]

/-- The message that a step receives on a connection. -/
def DispatcherStep.message (c : C) : DispatcherStep C K → Option (DispatcherMsg K)
  | .receive c' m _ => if c' = c then some m else none
  | _ => none

/-- What was received on a connection, oldest first. -/
def messages (c : C) (ls : List (DispatcherStep C K)) : List (DispatcherMsg K) :=
  ls.filterMap (DispatcherStep.message c)

/-- The node that a step registers through a connection. -/
def Dispatcher.registered (c : C) (s : Dispatcher C K) : DispatcherStep C K → List ℤ
  | .receive c' (.cnReg _) _ => if c' = c then [s.registry.cnId + 1] else []
  | _ => []

variable [Arith K]

/-- The nodes that a run registers through a connection. -/
def nodes (c : C) (ls : List (DispatcherStep C K)) : List ℤ :=
  dispatcher.trace (Dispatcher.registered c) Dispatcher.init ls

/-- After the end of `c` in state `s`, its nodes are gone.  Those of others are where they were, and
where they should be if their connection is still open. -/
structure Deregistered (c : C) (ls : List (DispatcherStep C K)) (s s' : Dispatcher C K) : Prop where
  gone : ∀ id ∈ nodes c ls, id ∉ s'.registry.ids
  stay : ∀ c', c' ≠ c → ∀ id ∈ nodes c' ls, id ∈ s.registry.ids → id ∈ s'.registry.ids
  there : ∀ c', c' ≠ c → (s.thread c').returned = false → ∀ id ∈ nodes c' ls, id ∈ s'.registry.ids

/-! ## Steps -/

/-- What a step does to a thread, by the message and the node of the step. -/
structure RunThread.Moved (t t' : RunThread) (m : Option (DispatcherMsg K)) (ids : List ℤ) :
    Prop where
  clientType : t'.clientType = m.toList.foldl ClientType.after t.clientType
  cnId : t'.cnId = ids.getLast?.getD t.cnId
  returned : t'.returned = false → t.returned = false

namespace Dispatcher

variable {s s' : Dispatcher C K} {l : DispatcherStep C K} {c : C}

omit [Arith K] in
/-- Nothing is received, and the thread keeps its role. -/
lemma moved_of_setThread {a : C} {t : RunThread}
    (hrole : t.clientType = (s.thread a).clientType) (hcnId : t.cnId = (s.thread a).cnId)
    (hreturned : t.returned = false → (s.thread a).returned = false) :
    RunThread.Moved (K := K) (s.thread c) ((s.setThread a t).thread c) none [] := by
  by_cases ha : a = c
  · subst ha
    rw [thread_setThread_self]
    exact ⟨hrole, hcnId, hreturned⟩
  · rw [thread_setThread_of_ne t ha]
    exact ⟨rfl, rfl, id⟩

lemma moved_handle {m : DispatcherMsg K} {junk : ℕ → ℤ} (hup : (s.handle c m junk).down = false) :
    RunThread.Moved (s.thread c) ((s.handle c m junk).thread c) (some m)
      (s.registered c (.receive c m junk)) := by
  cases m with
  | getBestCN levelCnt =>
      simp only [Dispatcher.handle] at hup ⊢
      split
      · rw [if_pos ‹_›] at hup
        cases hup
      · rw [thread_setThread_self]
        exact ⟨rfl, rfl, id⟩
  | unknown => cases hup
  | updateScore cnId => exact ⟨rfl, rfl, id⟩
  | getBindingCN =>
      simp only [Dispatcher.handle, thread_setThread_self]
      exact ⟨rfl, rfl, id⟩
  | loadInfo cnId weight usedTime =>
      simp only [Dispatcher.handle, thread_setThread_self]
      exact ⟨rfl, rfl, id⟩
  | cnReg capacity =>
      simp only [Dispatcher.handle, thread_setThread_self, registered, if_pos]
      exact ⟨rfl, rfl, id⟩

lemma thread_handle_of_ne {a : C} {m : DispatcherMsg K} {junk : ℕ → ℤ} (ha : a ≠ c) :
    (s.handle a m junk).thread c = s.thread c := by
  cases m with
  | getBestCN levelCnt =>
      simp only [Dispatcher.handle]
      split
      · rfl
      · exact thread_setThread_of_ne _ ha
  | unknown => rfl
  | updateScore cnId => rfl
  | _ => exact thread_setThread_of_ne _ ha

/-- Messages and registrations are the only steps that change roles. -/
lemma moved_of_moves (hs : s.Moves l s') (hup : s'.down = false) (c : C) :
    RunThread.Moved (s.thread c) (s'.thread c) (l.message c) (s.registered c l) := by
  cases hs with
  | @receive a m junk hidle =>
      by_cases ha : a = c
      · subst ha
        rw [DispatcherStep.message, if_pos rfl]
        exact moved_handle hup
      · have hnone : s.registered c (.receive a m junk) = [] := by
          cases m <;> simp [registered, ha]
        rw [thread_handle_of_ne ha, DispatcherStep.message, if_neg ha, hnone]
        exact ⟨rfl, rfl, id⟩
  | found hkeys hmem => exact moved_of_setThread rfl rfl id
  | missed hkeys hmem => cases hup
  | leave hidle hstay => exact moved_of_setThread rfl rfl fun h => by cases h
  | deregister hidle hcn => exact moved_of_setThread rfl rfl fun h => by cases h
  | reorder => exact ⟨rfl, rfl, id⟩

lemma returned_of_close {orderly : Bool} (hs : s.Moves (.close c orderly) s') :
    (s'.thread c).returned = true := by
  have hreturned : ((s.leave c).thread c).returned = true := by
    rw [leave, thread_setThread_self]
  cases hs with
  | leave hidle hstay => exact hreturned
  | deregister hidle hcn => exact hreturned

omit [Arith K] in
lemma registered_cases (s : Dispatcher C K) (c : C) (l : DispatcherStep C K) :
    s.registered c l = [] ∨ s.registered c l = [s.registry.cnId + 1] ∧
      ∃ capacity junk, l = .receive c (.cnReg capacity) junk := by
  unfold registered
  split
  · split
    · rename_i ha
      subst ha
      exact Or.inr ⟨rfl, _, _, rfl⟩
    · exact Or.inl rfl
  · exact Or.inl rfl

omit [Arith K] in
lemma length_registered (s : Dispatcher C K) (c : C) (l : DispatcherStep C K) :
    (s.registered c l).length = (l.message c).toList.countP DispatcherMsg.registers := by
  cases l with
  | receive a m junk =>
      by_cases ha : a = c
      · cases m <;> simp [registered, DispatcherStep.message, DispatcherMsg.registers, ha]
      · cases m <;> simp [registered, DispatcherStep.message, ha]
  | _ => rfl

lemma registered_mem (hs : s.Moves l s') {id : ℤ} (hid : id ∈ s.registered c l) :
    id = s.registry.cnId + 1 ∧ id ≤ s'.registry.cnId ∧ id ∈ s'.registry.ids ∧
      ∃ capacity junk, l = .receive c (.cnReg capacity) junk := by
  rcases s.registered_cases c l with hnil | ⟨hone, capacity, junk, rfl⟩
  · rw [hnil] at hid
    cases hid
  · rw [hone, List.mem_singleton] at hid
    subst hid
    cases hs
    refine ⟨rfl, le_rfl, ?_, capacity, junk, rfl⟩
    rw [ids_handle_cnReg]
    exact List.mem_append_right _ (List.mem_singleton_self _)

lemma cnId_le_of_moves (hs : s.Moves l s') : s.registry.cnId ≤ s'.registry.cnId := by
  cases hs with
  | @receive a m junk hidle =>
      cases m with
      | cnReg capacity => exact Int.le_add_one le_rfl
      | loadInfo cnId weight usedTime => simp [Dispatcher.handle]
      | getBestCN levelCnt =>
          simp only [Dispatcher.handle]
          split <;> exact le_rfl
      | _ => exact le_rfl
  | found hkeys hmem =>
      simp only [Dispatcher.found]
      split <;> exact le_rfl
  | _ => exact le_rfl

end Dispatcher

/-! ## Runs -/

variable {s s' : Dispatcher C K} {ls : List (DispatcherStep C K)}

omit [Arith K] in
lemma messages_snoc (c : C) (ls : List (DispatcherStep C K)) (l : DispatcherStep C K) :
    messages c (ls ++ [l]) = messages c ls ++ (l.message c).toList := by
  rw [messages, List.filterMap_append, ← messages]
  cases h : l.message c <;> simp [h]

lemma nodes_snoc (h : dispatcher.exec Dispatcher.init ls = some s) (c : C)
    (l : DispatcherStep C K) : nodes c (ls ++ [l]) = nodes c ls ++ s.registered c l :=
  dispatcher.trace_snoc _ l h

/-- A node is registered by a message that says so. -/
lemma length_nodes (h : dispatcher.exec Dispatcher.init ls = some s) (c : C) :
    (nodes c ls).length = (messages c ls).countP DispatcherMsg.registers := by
  refine dispatcher.exec_induction (P := fun ls _ =>
    (nodes c ls).length = (messages c ls).countP DispatcherMsg.registers) rfl ?_ h
  intro ls s l s' hs ih _
  rw [nodes_snoc hs, messages_snoc, List.length_append, List.countP_append, ih,
    Dispatcher.length_registered]

/-- The books of the connections: what the threads keep, and whose nodes are there. -/
structure Booked (ls : List (DispatcherStep C K)) (s : Dispatcher C K) : Prop where
  clientType : ∀ c, (s.thread c).clientType = (messages c ls).foldl ClientType.after .unset
  cnId : ∀ c, (s.thread c).cnId = (nodes c ls).getLast?.getD (-1)
  given : ∀ c, ∀ id ∈ nodes c ls, id ≤ s.registry.cnId
  nodup : ∀ c, (nodes c ls).Nodup
  owner : ∀ c c', ∀ id ∈ nodes c ls, id ∈ nodes c' ls → c = c'
  kept : ∀ c, (s.thread c).returned = false → ∀ id ∈ nodes c ls, id ∈ s.registry.ids

namespace Booked

lemma init : Booked [] (Dispatcher.init : Dispatcher C K) where
  clientType := fun _ => rfl
  cnId := fun _ => rfl
  given := fun _ _ hid => absurd hid List.not_mem_nil
  nodup := fun _ => List.nodup_nil
  owner := fun _ _ _ hid => absurd hid List.not_mem_nil
  kept := fun _ _ _ hid => absurd hid List.not_mem_nil

/-- The thread of a connection that stands for a node holds one of its nodes. -/
lemma cnId_mem (hb : Booked ls s) (h : dispatcher.exec Dispatcher.init ls = some s) {c : C}
    (hcn : (s.thread c).clientType = .cn) : (s.thread c).cnId ∈ nodes c ls := by
  have hne : nodes c ls ≠ [] := by
    intro hnil
    have hnone : ∀ m ∈ messages c ls, m.registers = false := by
      have hcount := length_nodes h c
      rw [hnil, List.length_nil] at hcount
      exact fun m hm => Bool.eq_false_iff.2 (List.countP_eq_zero.1 hcount.symm m hm)
    rw [hb.clientType] at hcn
    cases (of_foldl_after_eq_cn hnone hcn).1
  rw [hb.cnId, List.getLast?_eq_some_getLast hne]
  exact List.getLast_mem hne

lemma step (hb : Booked ls s) (h : dispatcher.exec Dispatcher.init ls = some s)
    {l : DispatcherStep C K} (hs : s.Moves l s') (hup : s'.down = false) :
    Booked (ls ++ [l]) s' where
  clientType := by
    intro c
    rw [(Dispatcher.moved_of_moves hs hup c).clientType, hb.clientType, messages_snoc,
      List.foldl_append]
  cnId := by
    intro c
    rw [(Dispatcher.moved_of_moves hs hup c).cnId, hb.cnId, nodes_snoc h, List.getLast?_append]
    cases (s.registered c l).getLast? <;> rfl
  given := by
    intro c id hid
    rw [nodes_snoc h, List.mem_append] at hid
    rcases hid with hid | hid
    · exact (hb.given c id hid).trans (Dispatcher.cnId_le_of_moves hs)
    · exact (Dispatcher.registered_mem hs hid).2.1
  nodup := by
    intro c
    rw [nodes_snoc h]
    rcases s.registered_cases c l with hnil | ⟨hone, -⟩
    · rw [hnil, List.append_nil]
      exact hb.nodup c
    · rw [hone]
      refine List.nodup_append.2 ⟨hb.nodup c, List.nodup_singleton _, ?_⟩
      intro id hid x hx
      have hle := hb.given c id hid
      rw [List.mem_singleton.1 hx]
      omega
  owner := by
    intro c c' id hid hid'
    rw [nodes_snoc h, List.mem_append] at hid hid'
    rcases hid with hid | hid <;> rcases hid' with hid' | hid'
    · exact hb.owner c c' id hid hid'
    · have hle := hb.given c id hid
      have hnew := (Dispatcher.registered_mem hs hid').1
      omega
    · have hle := hb.given c' id hid'
      have hnew := (Dispatcher.registered_mem hs hid).1
      omega
    · obtain ⟨-, -, -, capacity, junk, rfl⟩ := Dispatcher.registered_mem hs hid
      obtain ⟨-, -, -, capacity', junk', heq⟩ := Dispatcher.registered_mem hs hid'
      cases heq
      rfl
  kept := by
    intro c hopen id hid
    rw [nodes_snoc h, List.mem_append] at hid
    rcases hid with hid | hid
    · have hkept := hb.kept c ((Dispatcher.moved_of_moves hs hup c).returned hopen) id hid
      rcases Dispatcher.mem_ids_of_moves hs hkept with hids | ⟨a, rfl, hcn, rfl⟩
      · exact hids
      · -- The node is that of the connection that ends, which is not open.
        obtain rfl := hb.owner a c _ (hb.cnId_mem h hcn) hid
        rw [Dispatcher.returned_of_close hs] at hopen
        cases hopen
    · exact (Dispatcher.registered_mem hs hid).2.2.1

end Booked

lemma booked_of_exec (h : dispatcher.exec Dispatcher.init ls = some s) (hup : s.down = false) :
    Booked ls s := by
  refine dispatcher.exec_induction (P := fun ls s => s.down = false → Booked ls s)
    (fun _ => Booked.init) ?_ h hup
  intro ls s l s' hs ih hl hup'
  obtain ⟨hdown, hmoves⟩ := Dispatcher.moves_of_step hl
  exact (ih hdown).step hs hmoves hup'

/-! ## The end of a connection -/

/-- One node has been registered and its connection still stands for it. -/
lemma Booked.oneNode_iff (hb : Booked ls s) (h : dispatcher.exec Dispatcher.init ls = some s)
    {c : C} :
    OneNode (messages c ls) ↔ (s.thread c).clientType = .cn ∧ nodes c ls = [(s.thread c).cnId] := by
  rw [ElasticFramework.oneNode_iff, ← hb.clientType, ← length_nodes h]
  refine and_congr_right fun hcn => ?_
  constructor
  · intro hone
    obtain ⟨id, hid⟩ := List.length_eq_one_iff.1 hone
    have hmem := hb.cnId_mem h hcn
    rw [hid, List.mem_singleton] at hmem
    rw [hid, hmem]
  · intro hone
    rw [hone, List.length_singleton]

lemma nodes_eq_nil_iff (h : dispatcher.exec Dispatcher.init ls = some s) {c : C} :
    nodes c ls = [] ↔ ∀ m ∈ messages c ls, m.registers = false := by
  rw [← List.length_eq_zero_iff, length_nodes h, List.countP_eq_zero]
  simp

namespace Booked

/-- The nodes of others stay. -/
lemma mem_ids_of_close (hb : Booked ls s) (h : dispatcher.exec Dispatcher.init ls = some s)
    {c c' : C} {orderly : Bool} (hs : s.Moves (.close c orderly) s') (hc : c' ≠ c) {id : ℤ}
    (hid : id ∈ nodes c' ls) (hmem : id ∈ s.registry.ids) : id ∈ s'.registry.ids := by
  rcases Dispatcher.mem_ids_of_moves hs hmem with hids | ⟨a, heq, hcn, rfl⟩
  · exact hids
  · cases heq
    exact absurd (hb.owner c' c _ hid (hb.cnId_mem h hcn)) hc

/-- Its own nodes go when there is none, or one that the thread still holds. -/
lemma gone_iff (hb : Booked ls s) {c : C} {orderly : Bool}
    (hs : s.Moves (.close c orderly) s') :
    (∀ id ∈ nodes c ls, id ∉ s'.registry.ids) ↔
      nodes c ls = [] ∨
        orderly = true ∧ (s.thread c).clientType = .cn ∧ nodes c ls = [(s.thread c).cnId] := by
  cases hs with
  | leave hidle hstay =>
      constructor
      · intro hgone
        exact Or.inl (List.eq_nil_iff_forall_not_mem.2 fun id hid =>
          hgone id hid (hb.kept c hidle.1 id hid))
      · rintro (hnil | ⟨horderly, hcn, -⟩)
        · rw [hnil]
          exact fun id hid => absurd hid List.not_mem_nil
        · exact absurd ⟨horderly, hcn⟩ hstay
  | deregister hidle hcn =>
      constructor
      · intro hgone
        by_cases hone : nodes c ls = [(s.thread c).cnId]
        · exact Or.inr ⟨rfl, hcn, hone⟩
        · rcases ((hb.nodup c).ne_singleton_iff _).1 hone with hnil | ⟨id, hid, hne⟩
          · exact Or.inl hnil
          · exact absurd (Registry.mem_ids_delCN.2 ⟨hb.kept c hidle.1 id hid, hne⟩) (hgone id hid)
      · rintro (hnil | ⟨-, -, hone⟩) id hid
        · rw [hnil] at hid
          cases hid
        · rw [hone, List.mem_singleton] at hid
          exact fun hmem => (Registry.mem_ids_delCN.1 hmem).2 hid

end Booked

/-- **What an end of a connection takes off.**  After any run, the nodes of a connection that ends
are gone, and those of the others are not, if and only if no node was registered on it, or it is
closed in order by a peer that has registered one node and has not asked for nodes since. -/
theorem deregisters_iff (h : dispatcher.exec Dispatcher.init ls = some s) {c : C} {orderly : Bool}
    (hs : dispatcher.step s (.close c orderly) = some s') :
    Deregistered c ls s s' ↔ CleansUp (messages c ls) orderly := by
  obtain ⟨hup, hmoves⟩ := Dispatcher.moves_of_step hs
  have hb := booked_of_exec h hup
  rw [CleansUp, ← nodes_eq_nil_iff h, hb.oneNode_iff h, ← hb.gone_iff hmoves]
  refine ⟨fun hd => hd.gone, fun hgone => ⟨hgone, fun c' hc id hid hmem => ?_, ?_⟩⟩
  · exact hb.mem_ids_of_close h hmoves hc hid hmem
  · exact fun c' hc hopen id hid => hb.mem_ids_of_close h hmoves hc hid (hb.kept c' hopen id hid)

end Connections

/-! ## A node and a client -/

/-- A node registers and reports on one connection, and another node registers on the other. -/
def registerBoth : List (DispatcherStep Bool ℝ) :=
  [.receive true (.cnReg 1) 0, .receive false (.cnReg 1) 0, .receive true (.loadInfo 0 1 1) 0,
    .getCN true]

/-- Its peer leaves in order, and the other node is the only one left. -/
theorem deregisters_iff_run :
    ∃ s s', dispatcher.exec Dispatcher.init registerBoth = some s ∧
      dispatcher.step s (.close true true) = some s' ∧ Deregistered true registerBoth s s' := by
  obtain ⟨s, s', hrun, hs⟩ : ∃ s s', dispatcher.exec Dispatcher.init registerBoth = some s ∧
      dispatcher.step s (.close true true) = some s' := ⟨_, _, rfl, rfl⟩
  refine ⟨s, s', hrun, hs, (deregisters_iff hrun hs).2 (Or.inr ⟨rfl, ?_⟩)⟩
  refine ⟨[], 1, [.loadInfo 0 1 1], rfl, by simp, ?_⟩
  intro m hm
  rw [List.mem_singleton.1 hm]
  exact ⟨rfl, rfl⟩

/-- The connection of a node breaks, and the node stays. -/
theorem left_behind :
    ∃ s s', dispatcher.exec Dispatcher.init registerBoth = some s ∧
      dispatcher.step s (.close true false) = some s' ∧ ¬ Deregistered true registerBoth s s' := by
  refine ⟨_, _, rfl, rfl, fun hd => ?_⟩
  exact hd.gone 0 (List.mem_singleton_self _) (List.mem_cons_self ..)

end ElasticFramework
