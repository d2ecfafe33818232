import ElasticFramework.Construction.KernelArgs
import Mathlib.Tactic.Common

/-!
# The arguments waiting on the client

Between two launches of a kernel the client keeps its argument calls in three lists, sorted into
buffers and constants and with the index in a byte; the node replays all buffers, then all
constants.  The replay agrees with the calls in their order because an index is a buffer or a
constant for good, so the two passes never write one argument (`replay_partition`), as long as the
byte does not fold two indices into one.

`Tracks` is that statement for one state: there is, for every kernel, a log of calls since the last
launch which the three lists are the two passes of, and replaying it on what the queued commands
deliver gives the immediate arguments.  `Tracks.step` keeps it, one lemma for each call.
-/

namespace ElasticFramework

/-! ## What a command does to the arguments -/

lemma constWrites_snoc {l : List (ℕ × ℕ)} {data more : List UInt8} (i : ℕ)
    (h : data.length = (l.map Prod.snd).sum) :
    constWrites (l ++ [(i, more.length)]) (data ++ more) =
      constWrites l data ++ [(i, .bytes more)] := by
  induction l generalizing data with
  | nil =>
      have hnil : data = [] := List.length_eq_zero_iff.1 (by simpa using h)
      simp [constWrites, hnil]
  | cons x l ih =>
      rw [List.map_cons, List.sum_cons] at h
      have hle : x.2 ≤ data.length := by omega
      have htail : (data.drop x.2).length = (l.map Prod.snd).sum := by
        rw [List.length_drop]
        omega
      simp only [List.cons_append, constWrites, List.take_append_of_le_length hle,
        List.drop_append_of_le_length hle, ih htail]

lemma index_of_mem_constWrites {l : List (ℕ × ℕ)} {data : List UInt8} {x : ℕ × Binding}
    (h : x ∈ constWrites l data) : ∃ y ∈ l, y.1 = x.1 := by
  induction l generalizing data with
  | nil => simp [constWrites] at h
  | cons y l ih =>
      rcases List.mem_cons.1 h with rfl | h
      · exact ⟨y, List.mem_cons_self .., rfl⟩
      · obtain ⟨z, hz, heq⟩ := ih h
        exact ⟨z, List.mem_cons_of_mem _ hz, heq⟩

lemma bytes_of_mem_constWrites {l : List (ℕ × ℕ)} {data : List UInt8} {x : ℕ × Binding}
    (h : x ∈ constWrites l data) : ∃ d, x.2 = .bytes d := by
  induction l generalizing data with
  | nil => simp [constWrites] at h
  | cons y l ih =>
      rcases List.mem_cons.1 h with rfl | h
      · exact ⟨_, rfl⟩
      · exact ih h

/-- The lists waiting on the client, as writes. -/
def ClKernel.pending (kernel : ClKernel) : List (ℕ × Binding) :=
  memWrites kernel.changedMemId ++ constWrites kernel.constDataInfo kernel.constData

namespace CommandKernel

lemma foldl_const_eq (l : List (ℕ × ℕ)) (data : List UInt8) (args : ℕ → Option Binding)
    (offset : ℕ) :
    (l.foldl (fun (acc : (ℕ → Option Binding) × ℕ) x =>
      (Function.update acc.1 x.1 (some (.bytes ((data.drop acc.2).take x.2))), acc.2 + x.2))
      (args, offset)).1 = replay (constWrites l (data.drop offset)) args := by
  induction l generalizing args offset with
  | nil => rfl
  | cons x l ih =>
      rw [List.foldl_cons, ih]
      simp only [constWrites, replay_cons, List.drop_drop]

/-- `Exec` replays the buffers and then the constants. -/
lemma exec_eq_replay (c : CommandKernel) (args : ℕ → Option Binding) :
    c.exec args = replay (memWrites c.argMemId ++ constWrites c.argConst c.constData) args := by
  have hmem : c.argMemId.foldl (fun (args : ℕ → Option Binding) x =>
      Function.update args x.1 (some (.buffer x.2))) args =
      replay (memWrites c.argMemId) args := by
    rw [replay, memWrites, List.foldl_map]
  rw [exec, foldl_const_eq, hmem, replay_append, List.drop_zero]

end CommandKernel

lemma foldlM_addArg {l : List (ℕ × ℕ)} {c c' : CommandKernel}
    (h : l.foldlM (fun (comm : CommandKernel) x =>
      if x.2 ≠ nullMemId then some (comm.addArg x.1 x.2) else none) c = some c') :
    (∀ x ∈ l, x.2 ≠ nullMemId) ∧ c' = { c with argMemId := c.argMemId ++ l } := by
  induction l generalizing c with
  | nil =>
      cases h
      simp
  | cons x l ih =>
      rw [List.foldlM_cons] at h
      by_cases hx : x.2 ≠ nullMemId
      · rw [if_pos hx] at h
        obtain ⟨hl, rfl⟩ := ih h
        refine ⟨?_, by simp [CommandKernel.addArg]⟩
        intro y hy
        rcases List.mem_cons.1 hy with rfl | hy
        · exact hx
        · exact hl y hy
      · rw [if_neg hx] at h
        cases h

lemma foldl_addConst (l : List (ℕ × ℕ)) (c : CommandKernel) :
    l.foldl (fun (comm : CommandKernel) x => comm.addConst x.1 x.2) c =
      { c with argConst := c.argConst ++ l } := by
  induction l generalizing c with
  | nil => simp
  | cons x l ih =>
      rw [List.foldl_cons, ih]
      simp [CommandKernel.addConst]

/-- A launch the handler accepts carries the lists it was given, none of them with a null buffer. -/
lemma handlerEnqueueNDRangeKernel_eq {k : ℕ} {changedMemId constDataInfo : List (ℕ × ℕ)}
    {constData : List UInt8} {comm : CommandKernel}
    (h : handlerEnqueueNDRangeKernel k changedMemId constDataInfo constData = some comm) :
    (∀ x ∈ changedMemId, x.2 ≠ nullMemId) ∧
      comm = { CommandKernel.new k true with
        argMemId := changedMemId, argConst := constDataInfo, constData := constData } := by
  simp only [handlerEnqueueNDRangeKernel, Option.bind_eq_bind, Option.bind_eq_some_iff] at h
  obtain ⟨c, hc, h⟩ := h
  obtain ⟨hnull, rfl⟩ := foldlM_addArg hc
  refine ⟨hnull, ?_⟩
  split at h
  · rename_i hnil
    cases h
    simp [CommandKernel.new, hnil]
  · split at h
    · cases h
      rw [foldl_addConst]
      simp [CommandKernel.new]
    · cases h

/-- A launch the handler accepts replays the pending lists. -/
lemma handlerEnqueueNDRangeKernel_inv {k : ℕ} {kernel : ClKernel} {comm : CommandKernel}
    (h : handlerEnqueueNDRangeKernel k kernel.changedMemId kernel.constDataInfo kernel.constData =
      some comm) :
    (∀ x ∈ kernel.changedMemId, x.2 ≠ nullMemId) ∧ comm.kernelId = k ∧
      ∀ args, comm.exec args = replay kernel.pending args := by
  obtain ⟨hnull, hcomm⟩ := handlerEnqueueNDRangeKernel_eq h
  refine ⟨hnull, by rw [hcomm]; rfl, fun args => ?_⟩
  rw [CommandKernel.exec_eq_replay, hcomm, ClKernel.pending]

lemma foldlM_addArg_isSome {l : List (ℕ × ℕ)} (hnull : ∀ x ∈ l, x.2 ≠ nullMemId)
    (c : CommandKernel) :
    ∃ c', l.foldlM (fun (comm : CommandKernel) x =>
      if x.2 ≠ nullMemId then some (comm.addArg x.1 x.2) else none) c = some c' := by
  induction l generalizing c with
  | nil => exact ⟨c, rfl⟩
  | cons x l ih =>
      rw [List.foldlM_cons, if_pos (hnull x (List.mem_cons_self ..))]
      exact ih (fun y hy => hnull y (List.mem_cons_of_mem _ hy)) _

/-- Without a null buffer, and with the bytes the by-value arguments ask for, no assertion of the
handler fails. -/
lemma handlerEnqueueNDRangeKernel_isSome (k : ℕ) {changedMemId constDataInfo : List (ℕ × ℕ)}
    {constData : List UInt8} (hnull : ∀ x ∈ changedMemId, x.2 ≠ nullMemId)
    (hlength : constDataInfo = [] ∨
      (constDataInfo.map Prod.snd).sum % 2 ^ 32 = constData.length % 2 ^ 32) :
    ∃ comm, handlerEnqueueNDRangeKernel k changedMemId constDataInfo constData = some comm := by
  obtain ⟨c, hc⟩ := foldlM_addArg_isSome hnull (CommandKernel.new k true)
  simp only [handlerEnqueueNDRangeKernel, hc, Option.bind_eq_bind, Option.bind_some]
  split
  · exact ⟨_, rfl⟩
  · rename_i hne
    rw [if_pos (hlength.resolve_left hne)]
    exact ⟨_, rfl⟩

/-! ## What the queued commands will see -/

/-- One command of the queue. -/
def runCommand (args : DeviceArgs) (c : CommandKernel) : DeviceArgs :=
  Function.update args c.kernelId (c.exec (args c.kernelId))

/-- The kernel and arguments each queued command will launch with. -/
def upcoming : List CommandKernel → DeviceArgs → List (ℕ × (ℕ → Option Binding))
  | [], _ => []
  | c :: cs, args => (c.kernelId, c.exec (args c.kernelId)) :: upcoming cs (runCommand args c)

/-- The arguments once every queued command has run. -/
def KernelSession.delivered (s : KernelSession) : DeviceArgs := s.commands.foldl runCommand s.args

lemma upcoming_snoc (cs : List CommandKernel) (c : CommandKernel) (args : DeviceArgs) :
    upcoming (cs ++ [c]) args = upcoming cs args ++
      [(c.kernelId, c.exec (cs.foldl runCommand args c.kernelId))] := by
  induction cs generalizing args with
  | nil => rfl
  | cons d cs ih => rw [List.cons_append, upcoming, ih, upcoming, List.cons_append, List.foldl_cons]

lemma exec_task (k : ℕ) (args : ℕ → Option Binding) : (handlerEnqueueTask k).exec args = args :=
  rfl

/-! ## What a call does -/

section Inversion

variable {s s' : Lockstep} {k : ℕ}

lemma setKernelArg_inv {i : ℕ} {v : ArgValue}
    (hs : kernelSession.step s (.setKernelArg k i v) = some s') :
    s'.code.kernels =
        Function.update s.code.kernels k (clSetKernelArg (s.code.kernels k) i v).2 ∧
      s'.code.delivered = s.code.delivered ∧
      s'.immediate = s.setImmediate (.setKernelArg k i v) := by
  cases hs
  exact ⟨rfl, rfl, rfl⟩

/-- A range launch is accepted without null buffers only; it empties the lists of the kernel and
puts them on the queue. -/
lemma enqueueNDRangeKernel_inv
    (hs : kernelSession.step s (.enqueueNDRangeKernel k) = some s') :
    (∀ x ∈ (s.code.kernels k).changedMemId, x.2 ≠ nullMemId) ∧
      s'.code.kernels = Function.update s.code.kernels k (s.code.kernels k).clear ∧
      s'.code.delivered = Function.update s.code.delivered k
        (replay (s.code.kernels k).pending (s.code.delivered k)) ∧
      s'.immediate = s.immediate := by
  simp only [kernelSession, KernelSession.step, Option.map_map, Option.map_eq_some_iff,
    Function.comp_apply] at hs
  obtain ⟨comm, hcomm, rfl⟩ := hs
  obtain ⟨hnull, hid, hexec⟩ := handlerEnqueueNDRangeKernel_inv hcomm
  refine ⟨hnull, rfl, ?_, rfl⟩
  rw [KernelSession.delivered, List.foldl_append, List.foldl_cons, List.foldl_nil, runCommand, hid,
    hexec]
  rfl

/-- A task changes nothing but the queue, and nothing that the queue delivers. -/
lemma enqueueTask_inv (hs : kernelSession.step s (.enqueueTask k) = some s') :
    s'.code.kernels = s.code.kernels ∧ s'.code.delivered = s.code.delivered ∧
      s'.immediate = s.immediate := by
  cases hs
  refine ⟨rfl, ?_, rfl⟩
  rw [KernelSession.delivered, List.foldl_append, List.foldl_cons, List.foldl_nil, runCommand,
    exec_task]
  exact Function.update_eq_self _ _

/-- The node takes the front command. -/
lemma exec_front (hs : kernelSession.step s .exec = some s') :
    ∃ comm rest, s.code.commands = comm :: rest ∧ s' = ⟨{ s.code with
      commands := rest
      args := Function.update s.code.args comm.kernelId
        (comm.exec (s.code.args comm.kernelId)) }, s.immediate⟩ := by
  simp only [kernelSession, KernelSession.step, Option.map_eq_some_iff] at hs
  obtain ⟨code, hcode, rfl⟩ := hs
  split at hcode
  · cases hcode
  · rename_i comm rest hcommands
    cases hcode
    exact ⟨comm, rest, hcommands, rfl⟩

lemma exec_inv (hs : kernelSession.step s .exec = some s') :
    s'.code.kernels = s.code.kernels ∧ s'.code.delivered = s.code.delivered ∧
      s'.immediate = s.immediate := by
  obtain ⟨comm, rest, hcommands, rfl⟩ := exec_front hs
  refine ⟨rfl, ?_, rfl⟩
  rw [KernelSession.delivered, KernelSession.delivered, hcommands]
  rfl

end Inversion

/-! ## The invariant -/

/-- How a binding is kept in the lists: a null pointer is a reserved buffer id. -/
def Binding.raw : Binding → Binding
  | .null => .buffer nullMemId
  | b => b

def Binding.isPointer : Binding → Bool
  | .bytes _ => false
  | _ => true

/-- A pending write keeps its binding as it is, unless it is a null buffer. -/
lemma ClKernel.raw_of_lastWrite_pending {kernel : ClKernel} {i : ℕ} {b : Binding}
    (hnull : ∀ x ∈ kernel.changedMemId, x.2 ≠ nullMemId)
    (h : lastWrite i kernel.pending = some b) : b.raw = b ∧ b ≠ .buffer nullMemId := by
  rcases List.mem_append.1 (mem_of_lastWrite h) with hmem | hmem
  · obtain ⟨y, hy, heq⟩ := List.mem_map.1 hmem
    have hb : b = .buffer y.2 := (congrArg Prod.snd heq).symm
    have hne := hnull y hy
    rw [hb]
    exact ⟨rfl, fun heq => hne (Binding.buffer.inj heq)⟩
  · obtain ⟨d, hd⟩ := bytes_of_mem_constWrites hmem
    have hb : b = .bytes d := hd
    rw [hb]
    exact ⟨rfl, by simp⟩

lemma ArgValue.binding_true (v : ArgValue) : (v.binding true).isPointer = true ∧
    (v.binding true).raw = .buffer (v.mem.getD nullMemId) := by
  rw [ArgValue.binding]
  cases v.mem with
  | none => exact ⟨rfl, rfl⟩
  | some memId => exact ⟨rfl, rfl⟩

lemma Binding.raw_eq (b : Binding) : b.raw = b ∨ b.raw = .buffer nullMemId := by
  cases b with
  | null => exact Or.inr rfl
  | _ => exact Or.inl rfl

/-- Only the last write of the list that grows can be the new one. -/
lemma lastWrite_pending_clSetKernelArg {kernel : ClKernel} {i j : ℕ} {v : ArgValue} {b : Binding}
    (hlength : kernel.constData.length = (kernel.constDataInfo.map Prod.snd).sum)
    (h : lastWrite j (clSetKernelArg kernel i v).2.pending = some b) :
    lastWrite j kernel.pending = some b ∨
      ∃ isPointer, kernel.isPointer[i]? = some isPointer ∧ b = (v.binding isPointer).raw := by
  cases hp : kernel.isPointer[i]? with
  | none =>
      simp only [clSetKernelArg, hp] at h
      exact Or.inl h
  | some isPointer =>
      cases isPointer with
      | true =>
          simp only [clSetKernelArg, hp, ClKernel.pending] at h
          rw [memWrites, List.map_append, List.map_singleton, lastWrite_append, lastWrite_snoc,
            ← memWrites, Option.or_eq_some_iff] at h
          rw [ClKernel.pending, lastWrite_append, Option.or_eq_some_iff]
          rcases h with h | ⟨hnone, h⟩
          · exact Or.inl (Or.inl h)
          · split at h
            · exact Or.inr ⟨true, rfl, (Option.some.inj h).symm.trans v.binding_true.2.symm⟩
            · exact Or.inl (Or.inr ⟨hnone, h⟩)
      | false =>
          simp only [clSetKernelArg, hp, ClKernel.pending, constWrites_snoc _ hlength,
            ← List.append_assoc, lastWrite_snoc] at h
          split at h
          · exact Or.inr ⟨false, rfl, (Option.some.inj h).symm⟩
          · exact Or.inl h

section SetKernelArg

variable {kernel : ClKernel} {i : ℕ} {v : ArgValue}

lemma length_clSetKernelArg
    (h : kernel.constData.length = (kernel.constDataInfo.map Prod.snd).sum) :
    (clSetKernelArg kernel i v).2.constData.length =
      ((clSetKernelArg kernel i v).2.constDataInfo.map Prod.snd).sum := by
  unfold clSetKernelArg
  split
  · exact h
  · exact h
  · simp [h]

lemma changedMemId_clSetKernelArg (h : ∀ x ∈ kernel.changedMemId, x.1 < 2 ^ 8) :
    ∀ x ∈ (clSetKernelArg kernel i v).2.changedMemId, x.1 < 2 ^ 8 := by
  unfold clSetKernelArg
  split
  · exact h
  · intro x hx
    rcases List.mem_append.1 hx with hx | hx
    · exact h x hx
    · rw [List.mem_singleton.1 hx]
      exact Nat.mod_lt _ (by decide)
  · exact h

lemma constDataInfo_clSetKernelArg (h : ∀ x ∈ kernel.constDataInfo, x.1 < 2 ^ 8) :
    ∀ x ∈ (clSetKernelArg kernel i v).2.constDataInfo, x.1 < 2 ^ 8 := by
  unfold clSetKernelArg
  split
  · exact h
  · exact h
  · intro x hx
    rcases List.mem_append.1 hx with hx | hx
    · exact h x hx
    · rw [List.mem_singleton.1 hx]
      exact Nat.mod_lt _ (by decide)

end SetKernelArg

/-- `log` holds the calls since the last launch, and the lists of the kernel are its two passes. -/
structure Logged (kernel : ClKernel) (log : List (ℕ × Binding)) : Prop where
  mem : memWrites kernel.changedMemId =
    (log.filter fun x => x.2.isPointer).map fun x => (x.1, x.2.raw)
  const : constWrites kernel.constDataInfo kernel.constData =
    (log.filter fun x => !x.2.isPointer).map fun x => (x.1, x.2.raw)
  typed : ∀ x ∈ log, kernel.isPointer[x.1]? = some x.2.isPointer

namespace Lockstep

/-- No index set on the kernel so far needs more than the byte it is kept in. -/
def Addressable (s : Lockstep) (k : ℕ) : Prop := ∀ i, 2 ^ 8 ≤ i → s.immediate k i = none

/-- What waits on the client was last set to what the queued commands deliver anyway. -/
def Flushed (s : Lockstep) (k : ℕ) : Prop :=
  ∀ i b, lastWrite i (s.code.kernels k).pending = some b → s.code.delivered k i = some b

end Lockstep

/-- The lists waiting on the client and what the queue delivers account for the immediate
arguments of every kernel whose indices fit a byte. -/
structure Tracks (s : Lockstep) : Prop where
  length : ∀ k, (s.code.kernels k).constData.length =
    ((s.code.kernels k).constDataInfo.map Prod.snd).sum
  memIndex : ∀ k, ∀ x ∈ (s.code.kernels k).changedMemId, x.1 < 2 ^ 8
  constIndex : ∀ k, ∀ x ∈ (s.code.kernels k).constDataInfo, x.1 < 2 ^ 8
  range : ∀ k i, 2 ^ 8 ≤ i → s.code.delivered k i = none
  notNull : ∀ k i b, s.code.delivered k i = some b → b.raw = b ∧ b ≠ .buffer nullMemId
  log : ∀ k, s.Addressable k →
    ∃ log, Logged (s.code.kernels k) log ∧ s.immediate k = replay log (s.code.delivered k)

namespace Logged

variable {kernel : ClKernel} {log : List (ℕ × Binding)}

lemma pending_eq (h : Logged kernel log) :
    kernel.pending = ((log.filter fun x => x.2.isPointer) ++
      log.filter fun x => !x.2.isPointer).map fun x => (x.1, x.2.raw) := by
  rw [ClKernel.pending, h.mem, h.const, List.map_append]

/-- An index is a buffer or a constant for good. -/
lemma classes (h : Logged kernel log) :
    ∀ x ∈ log, x.2.isPointer = (kernel.isPointer[x.1]?).getD false := by
  intro x hx
  rw [h.typed x hx]
  rfl

/-- An argument that is set is logged. -/
lemma clSetKernelArg (h : Logged kernel log) {i : ℕ} (hi : i < 2 ^ 8) {v : ArgValue}
    {isPointer : Bool} (hp : kernel.isPointer[i]? = some isPointer)
    (hlength : kernel.constData.length = (kernel.constDataInfo.map Prod.snd).sum) :
    Logged (clSetKernelArg kernel i v).2 (log ++ [(i, v.binding isPointer)]) := by
  have htyped : ∀ b : Binding, b.isPointer = isPointer →
      ∀ x ∈ log ++ [(i, b)], kernel.isPointer[x.1]? = some x.2.isPointer := by
    intro b hb x hx
    rcases List.mem_append.1 hx with hx | hx
    · exact h.typed x hx
    · rw [List.mem_singleton.1 hx, hb]
      exact hp
  cases isPointer with
  | true =>
      have hbinding := v.binding_true
      simp only [ElasticFramework.clSetKernelArg, hp]
      refine ⟨?_, ?_, htyped _ hbinding.1⟩
      · rw [memWrites, List.map_append, ← memWrites, h.mem, Nat.mod_eq_of_lt hi]
        simp [List.filter_append, hbinding]
      · rw [h.const]
        simp [List.filter_append, hbinding]
  | false =>
      simp only [ElasticFramework.clSetKernelArg, hp]
      refine ⟨?_, ?_, htyped _ rfl⟩
      · rw [h.mem]
        simp [List.filter_append, ArgValue.binding, Binding.isPointer]
      · rw [constWrites_snoc _ hlength, h.const, Nat.mod_eq_of_lt hi]
        simp [List.filter_append, ArgValue.binding, Binding.isPointer, Binding.raw]

lemma lastWrite_pending (h : Logged kernel log) (i : ℕ) :
    lastWrite i kernel.pending = (lastWrite i log).map Binding.raw := by
  rw [h.pending_eq, lastWrite_map, lastWrite_partition (c := fun i => (kernel.isPointer[i]?).getD
    false) h.classes]

/-- With no null buffer the two passes replay to what the calls in their order do. -/
lemma replay_pending (h : Logged kernel log) (hnull : ∀ x ∈ kernel.changedMemId, x.2 ≠ nullMemId)
    (args : ℕ → Option Binding) : replay kernel.pending args = replay log args := by
  have hraw : ∀ x ∈ log, x.2.raw = x.2 := by
    intro x hx
    cases hb : x.2 with
    | null =>
        exfalso
        have hmem : (x.1, x.2.raw) ∈ memWrites kernel.changedMemId := by
          rw [h.mem]
          refine List.mem_map.2 ⟨x, List.mem_filter.2 ⟨hx, ?_⟩, rfl⟩
          rw [hb]
          rfl
        obtain ⟨y, hy, heq⟩ := List.mem_map.1 hmem
        have hid : Binding.buffer y.2 = .buffer nullMemId := by
          have hsnd := congrArg Prod.snd heq
          rw [hb] at hsnd
          exact hsnd
        exact hnull y hy (Binding.buffer.inj hid)
    | _ => rfl
  have hmap : ∀ l : List (ℕ × Binding), (∀ x ∈ l, x ∈ log) →
      l.map (fun x => (x.1, x.2.raw)) = l := by
    intro l hl
    refine (List.map_congr_left fun x hx => ?_).trans (List.map_id l)
    rw [hraw x (hl x hx)]
    rfl
  have hpending : kernel.pending = (log.filter fun x => x.2.isPointer) ++
      log.filter fun x => !x.2.isPointer := by
    rw [h.pending_eq]
    refine hmap _ fun x hx => ?_
    rcases List.mem_append.1 hx with hx | hx
    · exact (List.mem_filter.1 hx).1
    · exact (List.mem_filter.1 hx).1
  rw [hpending, replay_partition (c := fun i => (kernel.isPointer[i]?).getD false) h.classes]

end Logged

namespace Tracks

variable {s s' : Lockstep}

/-- The pending lists bring the device arguments up to date. -/
lemma replay_pending_eq (h : Tracks s) {k : ℕ} (hk : s.Addressable k)
    (hnull : ∀ x ∈ (s.code.kernels k).changedMemId, x.2 ≠ nullMemId) :
    replay (s.code.kernels k).pending (s.code.delivered k) = s.immediate k := by
  obtain ⟨log, hlog, hreplay⟩ := h.log k hk
  rw [hreplay, hlog.replay_pending hnull]

/-- Without the pending lists the device arguments are up to date only if these bring nothing
new. -/
lemma delivered_eq_iff (h : Tracks s) (k : ℕ) :
    s.code.delivered k = s.immediate k ↔ s.Addressable k ∧ s.Flushed k := by
  constructor
  · intro heq
    have hk : s.Addressable k := by
      intro i hi
      rw [← heq]
      exact h.range k i hi
    refine ⟨hk, fun i b hb => ?_⟩
    obtain ⟨log, hlog, hreplay⟩ := h.log k hk
    rw [hlog.lastWrite_pending] at hb
    obtain ⟨a, ha, rfl⟩ := Option.map_eq_some_iff.1 hb
    have hself := replay_eq_self_iff.1 (hreplay.symm.trans heq.symm) i a ha
    rw [(h.notNull k i a hself).1]
    exact hself
  · rintro ⟨hk, hflushed⟩
    obtain ⟨log, hlog, hreplay⟩ := h.log k hk
    rw [hreplay]
    refine (replay_eq_self_iff.2 fun i a ha => ?_).symm
    have hdelivered : s.code.delivered k i = some a.raw := by
      refine hflushed i a.raw ?_
      rw [hlog.lastWrite_pending, ha]
      rfl
    -- A null pointer is never delivered: it would come as the reserved id.
    cases a with
    | null => exact absurd rfl (h.notNull k i _ hdelivered).2
    | _ => exact hdelivered

/-! ## One step -/

/-- A call on kernel `k` changes its lists and its immediate arguments. -/
lemma update (h : Tracks s) {k : ℕ} {kernel : ClKernel} {imm : ℕ → Option Binding}
    (hlength : kernel.constData.length = (kernel.constDataInfo.map Prod.snd).sum)
    (hmem : ∀ x ∈ kernel.changedMemId, x.1 < 2 ^ 8)
    (hconst : ∀ x ∈ kernel.constDataInfo, x.1 < 2 ^ 8)
    (hlog : (∀ i, 2 ^ 8 ≤ i → imm i = none) →
      ∃ log, Logged kernel log ∧ imm = replay log (s.code.delivered k)) :
    Tracks ⟨{ s.code with kernels := Function.update s.code.kernels k kernel },
      Function.update s.immediate k imm⟩ := by
  have hdelivered : ({ s.code with kernels := Function.update s.code.kernels k kernel } :
    KernelSession).delivered = s.code.delivered := rfl
  constructor
  · intro j
    by_cases hj : j = k
    · subst hj
      simpa using hlength
    · simpa [hj] using h.length j
  · intro j
    by_cases hj : j = k
    · subst hj
      simpa using hmem
    · simpa [hj] using h.memIndex j
  · intro j
    by_cases hj : j = k
    · subst hj
      simpa using hconst
    · simpa [hj] using h.constIndex j
  · exact h.range
  · exact h.notNull
  · intro j
    rw [hdelivered]
    by_cases hj : j = k
    · subst hj
      simpa [Lockstep.Addressable] using hlog
    · simpa [hj, Lockstep.Addressable] using h.log j

lemma setKernelArg (h : Tracks s) (k i : ℕ) (v : ArgValue)
    (hs : kernelSession.step s (.setKernelArg k i v) = some s') : Tracks s' := by
  simp only [kernelSession, KernelSession.step, Option.map_some, Option.some.injEq] at hs
  subst hs
  cases hp : (s.code.kernels k).isPointer[i]? with
  | none => simpa [clSetKernelArg, Lockstep.setImmediate, hp] using h
  | some isPointer =>
      have himm : s.setImmediate (.setKernelArg k i v) = Function.update s.immediate k
          (Function.update (s.immediate k) i (some (v.binding isPointer))) := by
        simp [Lockstep.setImmediate, hp]
      rw [himm]
      refine h.update (length_clSetKernelArg (h.length k))
        (changedMemId_clSetKernelArg (h.memIndex k)) (constDataInfo_clSetKernelArg (h.constIndex k))
        fun hnone => ?_
      -- The argument is set, so its own index fits a byte if all do.
      have hi : i < 2 ^ 8 := by
        by_contra hi
        have hset := hnone i (by omega)
        simp at hset
      have hold : s.Addressable k := by
        intro j hj
        have hne : j ≠ i := by omega
        simpa [hne] using hnone j hj
      obtain ⟨log, hlog, hreplay⟩ := h.log k hold
      refine ⟨log ++ [(i, v.binding isPointer)], hlog.clSetKernelArg hi hp (h.length k), ?_⟩
      rw [replay_snoc, ← hreplay]

/-- The pending writes leave alone what a byte cannot name. -/
lemma lastWrite_pending_eq_none (h : Tracks s) (k : ℕ) {i : ℕ} (hi : 2 ^ 8 ≤ i) :
    lastWrite i (s.code.kernels k).pending = none := by
  refine lastWrite_eq_none fun x hx => ?_
  have hlt : x.1 < 2 ^ 8 := by
    rcases List.mem_append.1 hx with hx | hx
    · obtain ⟨y, hy, rfl⟩ := List.mem_map.1 hx
      exact h.memIndex k y hy
    · obtain ⟨y, hy, heq⟩ := index_of_mem_constWrites hx
      rw [← heq]
      exact h.constIndex k y hy
  omega

lemma replay_pending_apply_eq_none (h : Tracks s) (k : ℕ) {i : ℕ} (hi : 2 ^ 8 ≤ i) :
    replay (s.code.kernels k).pending (s.code.delivered k) i = none := by
  rw [replay_apply, h.lastWrite_pending_eq_none k hi, h.range k i hi]
  rfl

lemma enqueueNDRangeKernel (h : Tracks s) (k : ℕ)
    (hs : kernelSession.step s (.enqueueNDRangeKernel k) = some s') : Tracks s' := by
  obtain ⟨hnull, hkernels, hdelivered, himm⟩ := enqueueNDRangeKernel_inv hs
  constructor
  · intro j
    rw [hkernels]
    by_cases hj : j = k
    · subst hj
      simp [ClKernel.clear]
    · simpa [hj] using h.length j
  · intro j
    rw [hkernels]
    by_cases hj : j = k
    · subst hj
      simp [ClKernel.clear]
    · simpa [hj] using h.memIndex j
  · intro j
    rw [hkernels]
    by_cases hj : j = k
    · subst hj
      simp [ClKernel.clear]
    · simpa [hj] using h.constIndex j
  · intro j i hi
    rw [hdelivered]
    by_cases hj : j = k
    · subst hj
      rw [Function.update_self]
      exact h.replay_pending_apply_eq_none j hi
    · rw [Function.update_of_ne hj]
      exact h.range j i hi
  · intro j i b hb
    rw [hdelivered] at hb
    by_cases hj : j = k
    · subst hj
      rw [Function.update_self, replay_apply, Option.or_eq_some_iff] at hb
      rcases hb with hb | ⟨-, hb⟩
      · exact ClKernel.raw_of_lastWrite_pending hnull hb
      · exact h.notNull j i b hb
    · rw [Function.update_of_ne hj] at hb
      exact h.notNull j i b hb
  · intro j hj
    rw [Lockstep.Addressable, himm] at hj
    obtain ⟨log, hlog, hreplay⟩ := h.log j hj
    rw [hkernels, hdelivered, himm]
    by_cases hjk : j = k
    · subst hjk
      refine ⟨[], ⟨?_, ?_, by simp⟩, ?_⟩
      · simp [ClKernel.clear, memWrites]
      · simp [ClKernel.clear, constWrites]
      · rw [Function.update_self, replay_nil, hreplay, hlog.replay_pending hnull]
    · refine ⟨log, by simpa [hjk] using hlog, ?_⟩
      rw [Function.update_of_ne hjk]
      exact hreplay

/-- The steps that change neither the lists nor what the queue delivers. -/
lemma congr (h : Tracks s) (hkernels : s'.code.kernels = s.code.kernels)
    (hdelivered : s'.code.delivered = s.code.delivered)
    (himm : s'.immediate = s.immediate) : Tracks s' where
  length := hkernels ▸ h.length
  memIndex := hkernels ▸ h.memIndex
  constIndex := hkernels ▸ h.constIndex
  range := hdelivered ▸ h.range
  notNull := hdelivered ▸ h.notNull
  log := by
    simp only [hkernels, hdelivered, himm, Lockstep.Addressable]
    exact h.log

lemma enqueueTask (h : Tracks s) (k : ℕ)
    (hs : kernelSession.step s (.enqueueTask k) = some s') : Tracks s' := by
  obtain ⟨hkernels, hdelivered, himm⟩ := enqueueTask_inv hs
  exact h.congr hkernels hdelivered himm

lemma exec (h : Tracks s) (hs : kernelSession.step s .exec = some s') : Tracks s' := by
  obtain ⟨hkernels, hdelivered, himm⟩ := exec_inv hs
  exact h.congr hkernels hdelivered himm

lemma step (h : Tracks s) {l : KernelCall} (hs : kernelSession.step s l = some s') :
    Tracks s' := by
  cases l with
  | setKernelArg k i v => exact h.setKernelArg k i v hs
  | enqueueNDRangeKernel k => exact h.enqueueNDRangeKernel k hs
  | enqueueTask k => exact h.enqueueTask k hs
  | exec => exact h.exec hs

lemma init (isPointer : ℕ → List Bool) : Tracks (Lockstep.init isPointer) where
  length := fun _ => rfl
  memIndex := by simp [Lockstep.init, ClKernel.new]
  constIndex := by simp [Lockstep.init, ClKernel.new]
  range := fun _ _ _ => rfl
  notNull := by simp [Lockstep.init, KernelSession.delivered]
  log := fun k _ => ⟨[], ⟨rfl, rfl, by simp⟩, rfl⟩

end Tracks

end ElasticFramework
