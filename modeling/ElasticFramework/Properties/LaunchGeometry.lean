import ElasticFramework.Construction.Geometry
import ElasticFramework.Properties.RangeLaunch

/-!
# The geometry of a launch on the node

Kernel, dimension and sizes make the trip: the padding for the missing dimensions puts the local
sizes where the handler looks for them (`field_sizes`), and as every local size is at least one, a
zero in front is always that of a `NULL` (`tlocalWorkSize_decodes`).  The offset is not among the
fields, and `CommandKernel` would drop it, so that a launch comes out as it was asked for exactly
when it starts at zero (`launch_geometry_iff`).
-/

namespace ElasticFramework

/-! ## The fields -/

/-- A range message without its type, written out. -/
def sizesBuf (kernelId workDim : ℕ) (globals locals : List ℕ) (gap gap' tail : List UInt8) :
    List UInt8 :=
  leBytes 4 kernelId ++ ((leBytes 1 workDim ++ ((globals.map (leBytes 8)).flatten ++
    (gap ++ ((locals.map (leBytes 8)).flatten ++ gap')))) ++ tail)

/-- The sizes are read where they were pasted. -/
lemma field_sizes (kernelId : ℕ) {workDim : ℕ} {globals locals : List ℕ}
    {gap : List UInt8} (gap' tail : List UInt8) (hdim : workDim ≤ 3)
    (hglobals : globals.length = workDim) (hlocals : locals.length = workDim)
    (hgap : gap.length = 8 * (3 - workDim)) :
    let buf := sizesBuf kernelId workDim globals locals gap gap' tail
    field buf 0 4 = kernelId % 2 ^ 32 ∧ field buf 4 1 = workDim % 2 ^ 8 ∧
      (List.range workDim).map (fun i => field buf (5 + 8 * i) 8) = globals.map (· % 2 ^ 64) ∧
      (List.range workDim).map (fun i => field buf (5 + 24 + 8 * i) 8) =
        locals.map (· % 2 ^ 64) := by
  intro buf
  have hbuf : buf = leBytes 4 kernelId ++ (leBytes 1 workDim ++
      ((globals.map (leBytes 8)).flatten ++ (gap ++ ((locals.map (leBytes 8)).flatten ++
        (gap' ++ tail))))) := by
    simp only [buf, sizesBuf, List.append_assoc]
  have hglobalsLength := length_flatten_leBytes 8 (fun n => n) globals
  rw [hbuf]
  refine ⟨field_leBytes 4 4 _ _ le_rfl, ?_, ?_, ?_⟩
  · rw [field_append (by simp), length_leBytes]
    exact field_leBytes 1 1 _ _ le_rfl
  · rw [← hglobals, ← fields_leBytes 8 globals]
    refine List.map_congr_left fun i _ => ?_
    rw [field_append (by simp; omega), field_append (by simp; omega), length_leBytes,
      length_leBytes, show 5 + 8 * i - 4 - 1 = 8 * i by omega]
  · rw [← hlocals, ← fields_leBytes 8 locals]
    refine List.map_congr_left fun i _ => ?_
    have hoffset : 5 + 24 + 8 * i - 4 - 1 - 8 * globals.length - gap.length = 8 * i := by omega
    rw [field_append (by simp; omega), field_append (by simp; omega),
      field_append (by rw [hglobalsLength, length_leBytes, length_leBytes]; omega),
      field_append (by rw [hglobalsLength, length_leBytes, length_leBytes]; omega),
      length_leBytes, length_leBytes, hglobalsLength, hoffset]

/-! ## From the client to the node -/

namespace RangeLaunch

variable (c : RangeLaunch)

lemma length_tlocalWorkSize : c.tlocalWorkSize.length = c.workDim := by
  unfold NDRangeCall.tlocalWorkSize
  cases hlocal : c.localWorkSize with
  | none => rw [Option.getD_none, List.length_replicate]
  | some size => exact c.length_local size hlocal

lemma tlocalWorkSize_lt : ∀ x ∈ c.tlocalWorkSize, x < 2 ^ 64 := by
  unfold NDRangeCall.tlocalWorkSize
  cases hlocal : c.localWorkSize with
  | none =>
      intro x hx
      rw [List.eq_of_mem_replicate hx]
      decide
  | some size => exact c.local_lt size hlocal

/-- Zeros are `NULL`, and nothing else is. -/
lemma tlocalWorkSize_decodes :
    (if c.tlocalWorkSize.headD 0 ≠ 0 then some c.tlocalWorkSize else none) = c.localWorkSize := by
  unfold NDRangeCall.tlocalWorkSize
  cases hlocal : c.localWorkSize with
  | none => cases hdim : c.workDim <;> simp [List.replicate_succ]
  | some size =>
      have hlength := c.length_local size hlocal
      have hdim := c.workDim_pos
      cases size with
      | nil => simp only [List.length_nil] at hlength; omega
      | cons x size =>
          have hx := c.local_pos (x :: size) hlocal x (List.mem_cons_self ..)
          simp [show x ≠ 0 by omega]

/-- What the handler constructs of the message. -/
lemma message_decodes (args : ClKernel) :
    ∃ msg, c.message args = some msg ∧ handlerRangeCommand (msg.drop 4) =
      { kernelId := c.kernelId, isNDRange := true, workDim := c.workDim, globalWorkOffset := none,
        globalWorkSize := c.globalWorkSize, localWorkSize := c.tlocalWorkSize } := by
  obtain ⟨workSize, hworkSize⟩ :
    ∃ workSize, workSize = c.globalWorkSize.zip c.tlocalWorkSize := ⟨_, rfl⟩
  have hlengths : c.globalWorkSize.length = c.tlocalWorkSize.length := by
    rw [c.length_global, c.length_tlocalWorkSize]
  have hfst : workSize.map Prod.fst = c.globalWorkSize := by
    rw [hworkSize, List.map_fst_zip hlengths.le]
  have hsnd : workSize.map Prod.snd = c.tlocalWorkSize := by
    rw [hworkSize, List.map_snd_zip hlengths.ge]
  have hlength : workSize.length = c.workDim := by
    rw [← c.length_global, ← hfst, List.length_map]
  obtain ⟨gap, gap', tail, hgap, -, -, hmsg⟩ :=
    rangeMessage_fields c.kernelId args (hlength.le.trans c.workDim_le)
  have hglobal : workSize.map (fun x => leBytes 8 x.1) = c.globalWorkSize.map (leBytes 8) := by
    rw [← hfst, List.map_map]
    rfl
  have hlocal : workSize.map (fun x => leBytes 8 x.2) = c.tlocalWorkSize.map (leBytes 8) := by
    rw [← hsnd, List.map_map]
    rfl
  rw [hglobal, hlocal, hlength] at hmsg
  rw [hlength] at hgap
  rw [hworkSize] at hmsg
  refine ⟨_, hmsg, ?_⟩
  obtain ⟨hid, hdim, hglobals, hlocals⟩ := field_sizes c.kernelId gap'
    (leBytes 1 args.changedMemId.length ++ (leBytes 1 args.constDataInfo.length ++
      (leBytes 4 args.constData.length ++ tail))) c.workDim_le c.length_global
    c.length_tlocalWorkSize hgap
  have hdim' : c.workDim % 2 ^ 8 = c.workDim := Nat.mod_eq_of_lt (by have := c.workDim_le; omega)
  have hsame : ∀ {l : List ℕ}, (∀ x ∈ l, x < 2 ^ 64) → l.map (· % 2 ^ 64) = l := fun hl =>
    (List.map_congr_left fun x hx => Nat.mod_eq_of_lt (hl x hx)).trans (List.map_id _)
  rw [List.drop_left' (length_leBytes 4 _), handlerRangeCommand, RangeCommand.new]
  rw [sizesBuf] at hid hdim hglobals hlocals
  rw [hid, hdim, hdim', hglobals, hlocals, Nat.mod_eq_of_lt c.kernelId_lt, hsame c.global_lt,
    hsame c.tlocalWorkSize_lt]

/-- **A launch on the node.**  The call that `Exec` makes for it is the one the client was asked
for if and only if the global ids start at zero; then as always the kernel, the dimension and the
sizes are the same. -/
theorem launch_geometry_iff (args : ClKernel) :
    ∃ msg call, c.message args = some msg ∧ (handlerRangeCommand (msg.drop 4)).exec = some call ∧
      (call.Same c.toNDRangeCall ↔ c.offset = List.replicate c.workDim 0) := by
  obtain ⟨msg, hmsg, hcommand⟩ := c.message_decodes args
  refine ⟨msg, _, hmsg, by rw [hcommand, RangeCommand.exec, if_pos rfl], ?_⟩
  constructor
  · intro hsame
    exact hsame.offset.symm
  · intro hzero
    exact ⟨rfl, rfl, hzero.symm, rfl, c.tlocalWorkSize_decodes⟩

end RangeLaunch

/-- Sixteen items on from the start. -/
def shiftedLaunch : RangeLaunch where
  kernelId := 0
  workDim := 1
  globalWorkOffset := some [16]
  globalWorkSize := [32]
  localWorkSize := none
  kernelId_lt := by decide
  workDim_pos := le_rfl
  workDim_le := by decide
  length_offset := by decide
  length_global := rfl
  length_local := by decide
  global_lt := by decide
  local_lt := by decide
  local_pos := by decide

/-- The node runs it from the start. -/
theorem offset_lost :
    ¬ ∀ (c : RangeLaunch) (args : ClKernel), ∃ msg call, c.message args = some msg ∧
      (handlerRangeCommand (msg.drop 4)).exec = some call ∧ call.Same c.toNDRangeCall := by
  intro h
  obtain ⟨msg, call, hmsg, hcall, hsame⟩ := h shiftedLaunch (ClKernel.new [])
  obtain ⟨msg', hmsg', hcommand⟩ := shiftedLaunch.message_decodes (ClKernel.new [])
  rw [hmsg, Option.some.injEq] at hmsg'
  rw [hmsg', hcommand, RangeCommand.exec, if_pos rfl, Option.some.injEq] at hcall
  have hoffset := hsame.offset
  rw [← hcall] at hoffset
  revert hoffset
  decide

/-- The command that a launch comes to has the geometry that was read from its message. -/
lemma enqueueNDRangeKernel_geometry {recvBuf l l' : List UInt8} {comm : CommandKernel}
    {globalWorkSize localWorkSize : List ℕ}
    (h : Handler.enqueueNDRangeKernel recvBuf l =
      (.ok (.enqueueNDRangeKernel comm globalWorkSize localWorkSize), l')) :
    comm.kernelId = (handlerRangeCommand recvBuf).kernelId ∧
      globalWorkSize = (handlerRangeCommand recvBuf).globalWorkSize ∧
      localWorkSize = (handlerRangeCommand recvBuf).localWorkSize := by
  have hid : ∀ {changedMemId constDataInfo : List (ℕ × ℕ)} {constData l₃ l₄ : List UInt8},
      Reader.orStop Stop.abort (handlerEnqueueNDRangeKernel (field recvBuf 0 4) changedMemId
        constDataInfo constData) l₃ = (.ok comm, l₄) → comm.kernelId = field recvBuf 0 4 := by
    intro changedMemId constDataInfo constData l₃ l₄ hcomm
    cases hc : handlerEnqueueNDRangeKernel (field recvBuf 0 4) changedMemId constDataInfo
        constData with
    | none =>
        rw [hc] at hcomm
        cases hcomm
    | some c =>
        rw [hc] at hcomm
        cases hcomm
        rw [(handlerEnqueueNDRangeKernel_eq hc).2]
        rfl
  unfold Handler.enqueueNDRangeKernel at h
  obtain ⟨changedMemId, l₁, -, h⟩ := Reader.bind_eq_ok h
  dsimp only at h
  split at h
  all_goals
    obtain ⟨constData, l₂, -, h⟩ := Reader.bind_eq_ok h
    obtain ⟨constDataInfo, l₃, -, h⟩ := Reader.bind_eq_ok h
    obtain ⟨comm', l₄, hcomm, h⟩ := Reader.bind_eq_ok h
    cases h
    exact ⟨hid hcomm, rfl, rfl⟩

end ElasticFramework
