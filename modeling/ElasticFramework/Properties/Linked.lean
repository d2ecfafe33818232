import ElasticFramework.Construction.Node
import ElasticFramework.Framework.Tally

/-!
# How VMs and queues hang together

`Node.Linked` is the part of the node's invariant that concerns neither threads nor arithmetic:
the two lists hold distinct live addresses, the queues of the pool belong to VMs of the
scheduler, and every `reference_count` is the number of pool queues that belong to its VM.

One lemma an operation.  The operations that leave lists, owners and counts alone go through
`Linked.congr`; `createQueue` needs its VM to be in `VMs_` and `destroyQueue` its queue to be in
the pool, as `Run` arranges.
-/

namespace ElasticFramework

namespace Node

variable {K D : Type*}

/-- The pool queues that belong to a VM. -/
def queuesOf (n : Node K D) (v : ℕ) : ℕ := n.queues.countP fun q => (n.que q).VM == v

/-- Addresses are live and distinct, queues belong to VMs of the scheduler, and references are
counted. -/
structure Linked (n : Node K D) : Prop where
  nodupVMs : n.VMs.Nodup
  freshVMs : ∀ v ∈ n.VMs, v < n.nextVM
  nodupQueues : n.queues.Nodup
  freshQueues : ∀ q ∈ n.queues, q < n.nextQueue
  queueVM : ∀ q ∈ n.queues, (n.que q).VM ∈ n.VMs
  refs : ∀ v < n.nextVM, (n.vm v).referenceCount = n.queuesOf v

namespace Linked

/-- `Linked` reads the lists, the counters, the owners and the reference counts only. -/
lemma congr {n n' : Node K D} (h : n.Linked) (hVMs : n'.VMs = n.VMs)
    (hnextVM : n'.nextVM = n.nextVM) (hqueues : n'.queues = n.queues)
    (hnextQueue : n'.nextQueue = n.nextQueue) (howner : ∀ q, (n'.que q).VM = (n.que q).VM)
    (hrefs : ∀ v, (n'.vm v).referenceCount = (n.vm v).referenceCount) : n'.Linked where
  nodupVMs := hVMs ▸ h.nodupVMs
  freshVMs := by
    rw [hVMs, hnextVM]
    exact h.freshVMs
  nodupQueues := hqueues ▸ h.nodupQueues
  freshQueues := by
    rw [hqueues, hnextQueue]
    exact h.freshQueues
  queueVM := by
    intro q hq
    rw [hqueues] at hq
    rw [howner, hVMs]
    exact h.queueVM q hq
  refs := by
    intro v hv
    rw [hnextVM] at hv
    simp only [hrefs, h.refs v hv, queuesOf, hqueues, howner]

/-- A VM with no reference owns no pool queue. -/
lemma ne_of_refs_eq_zero {n : Node K D} (h : n.Linked) {v : ℕ} (hv : v < n.nextVM)
    (hzero : (n.vm v).referenceCount = 0) : ∀ q ∈ n.queues, (n.que q).VM ≠ v := by
  intro q hq howner
  rw [h.refs v hv, queuesOf, List.countP_eq_zero] at hzero
  exact hzero q hq (by simpa using howner)

/-! ## Operations that change no link -/

lemma setQueue {n : Node K D} (h : n.Linked) {q : ℕ} {cq : CommandQueue K D}
    (hVM : cq.VM = (n.que q).VM) : (n.setQueue q cq).Linked := by
  refine h.congr rfl rfl rfl rfl (fun p => ?_) fun _ => rfl
  by_cases hp : p = q
  · subst hp
    simp [Node.setQueue, hVM]
  · simp [Node.setQueue, hp]

lemma increase {n : Node K D} (h : n.Linked) : n.increase.Linked :=
  h.congr rfl rfl rfl rfl (fun _ => rfl) fun _ => rfl

lemma push {n : Node K D} (h : n.Linked) (q : ℕ) (comm : Command K) : (n.push q comm).Linked := by
  have hq : (n.setQueue q { n.que q with queue := (n.que q).queue ++ [comm] }).Linked :=
    h.setQueue rfl
  simp only [Node.push]
  split
  · exact hq.increase
  · exact hq

lemma pop {n : Node K D} (h : n.Linked) (q : ℕ) : (n.pop q).Linked := h.setQueue rfl

lemma setSkip {n : Node K D} (h : n.Linked) (q : ℕ) (b : Bool) : (n.setSkip q b).Linked :=
  h.setQueue rfl

lemma setBindingDev {n : Node K D} (h : n.Linked) (q : ℕ) (dev : D) :
    (n.setBindingDev q dev).Linked :=
  h.setQueue rfl

/-! ## Operations on the pool -/

lemma createQueue {n : Node K D} (h : n.Linked) {v : ℕ} (hv : v ∈ n.VMs) :
    (n.createQueue v).Linked where
  nodupVMs := h.nodupVMs
  freshVMs := h.freshVMs
  nodupQueues := by
    refine List.nodup_append.2 ⟨h.nodupQueues, List.nodup_singleton _, ?_⟩
    intro q hq x hx
    have hlt := h.freshQueues q hq
    simp only [List.mem_singleton] at hx
    omega
  freshQueues := by
    intro q hq
    simp only [Node.createQueue, List.mem_append, List.mem_singleton] at hq ⊢
    rcases hq with hq | rfl
    · exact (h.freshQueues q hq).trans (Nat.lt_succ_self _)
    · exact Nat.lt_succ_self _
  queueVM := by
    intro q hq
    simp only [Node.createQueue, List.mem_append, List.mem_singleton] at hq ⊢
    rcases hq with hq | rfl
    · have hlt := h.freshQueues q hq
      simpa [hlt.ne] using h.queueVM q hq
    · simpa [CommandQueue.new] using hv
  refs := by
    intro u hu
    have hold : n.queues.countP (fun q => ((n.createQueue v).que q).VM == u) = n.queuesOf u := by
      refine List.countP_congr fun q hq => ?_
      have hlt := h.freshQueues q hq
      simp [Node.createQueue, hlt.ne]
    have hcount : (n.createQueue v).queuesOf u = n.queuesOf u + if v = u then 1 else 0 := by
      rw [← hold]
      simp [queuesOf, Node.createQueue, List.countP_append, CommandQueue.new]
    rw [hcount, ← h.refs u hu]
    by_cases hvu : u = v
    · subst hvu
      simp [Node.createQueue]
    · simp [Node.createQueue, hvu, Ne.symm hvu]

lemma destroyQueue {n : Node K D} (h : n.Linked) {q : ℕ} (hq : q ∈ n.queues) :
    (n.destroyQueue q).Linked where
  nodupVMs := h.nodupVMs
  freshVMs := h.freshVMs
  nodupQueues := h.nodupQueues.erase q
  freshQueues := fun p hp => h.freshQueues p (List.mem_of_mem_erase hp)
  queueVM := fun p hp => h.queueVM p (List.mem_of_mem_erase hp)
  refs := by
    intro u hu
    have hcount : (n.destroyQueue q).queuesOf u =
        n.queuesOf u - if (n.que q).VM == u then 1 else 0 := by
      simp only [queuesOf, Node.destroyQueue, List.countP_erase, hq, true_and]
    rw [hcount, ← h.refs u hu]
    by_cases hvu : u = (n.que q).VM
    · subst hvu
      simp [Node.destroyQueue]
    · simp [Node.destroyQueue, hvu, Ne.symm hvu]

/-! ## Operations of the scheduler -/

variable [Arith K]

lemma init : (Node.init : Node K D).Linked where
  nodupVMs := List.nodup_nil
  freshVMs := by simp [Node.init]
  nodupQueues := List.nodup_nil
  freshQueues := by simp [Node.init]
  queueVM := by simp [Node.init]
  refs := by simp [Node.init]

lemma createVM {n : Node K D} (h : n.Linked) (weight : K) : (n.createVM weight).Linked where
  nodupVMs := by
    refine List.nodup_append.2 ⟨h.nodupVMs, List.nodup_singleton _, ?_⟩
    intro v hv x hx
    have hlt := h.freshVMs v hv
    simp only [List.mem_singleton] at hx
    omega
  freshVMs := by
    intro v hv
    simp only [Node.createVM, List.mem_append, List.mem_singleton] at hv ⊢
    rcases hv with hv | rfl
    · exact (h.freshVMs v hv).trans (Nat.lt_succ_self _)
    · exact Nat.lt_succ_self _
  nodupQueues := h.nodupQueues
  freshQueues := h.freshQueues
  queueVM := fun q hq => List.mem_append_left _ (h.queueVM q hq)
  refs := by
    intro v hv
    have hcount : (n.createVM weight).queuesOf v = n.queuesOf v := rfl
    rw [hcount]
    rcases Nat.lt_succ_iff_lt_or_eq.1 hv with hv | rfl
    · simpa [Node.createVM, hv.ne] using h.refs v hv
    · -- The new address is no queue's VM, and the object starts with no reference.
      have hnone : n.queuesOf n.nextVM = 0 := by
        refine List.countP_eq_zero.2 fun q hq => ?_
        have hlt := h.freshVMs _ (h.queueVM q hq)
        simpa using hlt.ne
      simp [Node.createVM, VMInfo.new, hnone]

lemma destroyVM {n : Node K D} (h : n.Linked) (v : ℕ) : (n.destroyVM v).2.Linked := by
  unfold Node.destroyVM
  split
  · exact h
  · rename_i hzero
    split
    · rename_i hv
      exact
        { nodupVMs := h.nodupVMs.erase v
          freshVMs := fun u hu => h.freshVMs u (List.mem_of_mem_erase hu)
          nodupQueues := h.nodupQueues
          freshQueues := h.freshQueues
          queueVM := by
            intro q hq
            have hne := h.ne_of_refs_eq_zero (h.freshVMs v hv) (not_not.1 hzero) q hq
            exact (List.mem_erase_of_ne hne).2 (h.queueVM q hq)
          refs := h.refs }
    · exact h

lemma account {n : Node K D} (h : n.Linked) (q : ℕ) (usedTime : K) :
    (n.account q usedTime).Linked := by
  refine h.congr rfl rfl rfl rfl (fun _ => rfl) fun v => ?_
  by_cases hv : v = (n.que q).VM
  · subst hv
    simp [Node.account, increaseTimeLengSquare, increaseInnerProduct]
  · simp [Node.account, increaseTimeLengSquare, increaseInnerProduct, hv]

end Linked

end Node

end ElasticFramework
