import ElasticFramework.Properties.PendingArgs
import ElasticFramework.Properties.RoundTrip
import Mathlib.Algebra.BigOperators.Group.List.Basic

/-!
# Range launches come through

`clEnqueueNDRangeKernel` sends the longest request: the message with the index space and the
numbers of waiting arguments, a message for every twelve buffer arguments, the bytes of the
by-value arguments, and the message with their entries.  `enqueueNDRangeKernel_yields` is what the
handler makes of it while the one-byte counts hold the numbers; `enqueueNDRangeKernel_takes` is
what it takes in any case, which shows when the counts have been cut.
-/

namespace ElasticFramework

open Reader

/-! ## The message -/

/-- The fields of the message of at most three dimensions, with the gaps that the missing ones
leave. -/
lemma rangeMessage_fields (kernelId : ℕ) {workSize : List (ℕ × ℕ)} (args : ClKernel)
    (h : workSize.length ≤ 3) :
    ∃ gap gap' tail, gap.length = 8 * (3 - workSize.length) ∧
      gap'.length = 8 * (3 - workSize.length) ∧ tail.length = 1 ∧
      rangeMessage kernelId workSize args =
        some (leBytes 4 MsgType.enqueueNDRangeKernel.num ++ (leBytes 4 kernelId ++
          ((leBytes 1 workSize.length ++ ((workSize.map fun x => leBytes 8 x.1).flatten ++
            (gap ++ ((workSize.map fun x => leBytes 8 x.2).flatten ++ gap')))) ++
          (leBytes 1 args.changedMemId.length ++ (leBytes 1 args.constDataInfo.length ++
            (leBytes 4 args.constData.length ++ tail)))))) := by
  have hroom :
      (2 ^ 32 + 3 - workSize.length % 2 ^ 32) % 2 ^ 32 * 8 = 8 * (3 - workSize.length) := by
    omega
  have hglobal := length_flatten_leBytes 8 (fun x : ℕ × ℕ => x.1) workSize
  have hlocal := length_flatten_leBytes 8 (fun x : ℕ × ℕ => x.2) workSize
  have hzeroed : (zeroed : List UInt8).length = 64 := zeroed.2
  obtain ⟨b₁, rest₁, hb₁, h₁, hl₁⟩ := (Draft.Holds.front zeroed).pasteAll
    (l := [leBytes 4 MsgType.enqueueNDRangeKernel.num, leBytes 4 kernelId,
      leBytes 1 workSize.length]) (by simp [hzeroed])
  have hrest₁ : rest₁.length = 55 := by simpa [hzeroed] using hl₁
  obtain ⟨b₂, rest₂, hb₂, h₂, hl₂⟩ := h₁.pasteAll (l := workSize.map fun x => leBytes 8 x.1)
    (by omega)
  obtain ⟨gap₂, rest₂', h₂', hgap₂, hl₂'⟩ := h₂.skip (n := 8 * (3 - workSize.length)) (by omega)
  obtain ⟨b₃, rest₃, hb₃, h₃, hl₃⟩ := h₂'.pasteAll (l := workSize.map fun x => leBytes 8 x.2)
    (by omega)
  obtain ⟨gap₃, rest₃', h₃', hgap₃, hl₃'⟩ := h₃.skip (n := 8 * (3 - workSize.length)) (by omega)
  obtain ⟨b₄, tail, hb₄, h₄, hl₄⟩ := h₃'.pasteAll (l := [leBytes 1 args.changedMemId.length,
    leBytes 1 args.constDataInfo.length, leBytes 4 args.constData.length]) (by simp; omega)
  have hmsg : rangeMessage kernelId workSize args = some b₄.buf := by
    simp only [rangeMessage, hroom, hb₁, hb₂, hb₃, hb₄, Option.bind_eq_bind, Option.bind_some]
  have hcounts : [leBytes 1 args.changedMemId.length, leBytes 1 args.constDataInfo.length,
      leBytes 4 args.constData.length].flatten.length = 6 := by simp
  refine ⟨gap₂, gap₃, tail, hgap₂, hgap₃, by omega, ?_⟩
  rw [hmsg, h₄.buf]
  simp only [List.nil_append, List.flatten_cons, List.flatten_nil, List.append_nil,
    List.append_assoc]

/-- An index space of at most three dimensions leaves the numbers of arguments where the handler
looks for them. -/
lemma rangeMessage_eq (kernelId : ℕ) {workSize : List (ℕ × ℕ)} (args : ClKernel)
    (h : workSize.length ≤ 3) :
    ∃ sizes tail, sizes.length = 49 ∧ tail.length = 1 ∧
      rangeMessage kernelId workSize args =
        some (leBytes 4 MsgType.enqueueNDRangeKernel.num ++ (leBytes 4 kernelId ++ (sizes ++
          (leBytes 1 args.changedMemId.length ++ (leBytes 1 args.constDataInfo.length ++
            (leBytes 4 args.constData.length ++ tail)))))) := by
  obtain ⟨gap, gap', tail, hgap, hgap', htail, hmsg⟩ := rangeMessage_fields kernelId args h
  refine ⟨_, tail, ?_, htail, hmsg⟩
  simp only [List.length_append, length_flatten_leBytes, length_leBytes]
  omega

/-- An index space of more dimensions overruns the message. -/
lemma length_of_rangeMessage {kernelId : ℕ} {workSize : List (ℕ × ℕ)} {args : ClKernel}
    {msg : List UInt8} (h : rangeMessage kernelId workSize args = some msg) :
    workSize.length ≤ 3 := by
  simp only [rangeMessage, Option.bind_eq_bind, Option.bind_eq_some_iff] at h
  obtain ⟨b₁, h₁, b₂, h₂, b₃, h₃, b₄, h₄, -⟩ := h
  obtain ⟨ho₁, hl₁, -⟩ := Draft.offset_of_pasteAll h₁
  obtain ⟨ho₂, hl₂, -⟩ := Draft.offset_of_pasteAll h₂
  obtain ⟨ho₃, hl₃, -⟩ := Draft.offset_of_pasteAll h₃
  obtain ⟨ho₄, hl₄, hle⟩ := Draft.offset_of_pasteAll h₄
  have hfits := hle (List.cons_ne_nil _ _)
  rw [length_flatten_leBytes] at ho₂ ho₃
  have hzeroed : (zeroed : List UInt8).length = 64 := zeroed.2
  simp only [Draft.skip, List.flatten_cons, List.length_append, length_leBytes, List.flatten_nil,
    List.length_nil] at ho₁ ho₂ ho₃ ho₄ hl₁ hl₂ hl₃ hl₄
  omega

section Range

variable {kernelId : ℕ} {sizes : List UInt8}

/-- A range message without its type. -/
def rangeBuf (kernelId m k d : ℕ) (sizes tail : List UInt8) : List UInt8 :=
  leBytes 4 kernelId ++ (sizes ++ (leBytes 1 m ++ (leBytes 1 k ++ (leBytes 4 d ++ tail))))

lemma length_rangeMsg (kernelId m k d : ℕ) {sizes tail : List UInt8} (hsizes : sizes.length = 49)
    (htail : tail.length = 1) : (leBytes 4 MsgType.enqueueNDRangeKernel.num ++
      rangeBuf kernelId m k d sizes tail).length = kMsgMaxSize := by
  simp only [rangeBuf, List.length_append, length_leBytes, hsizes, htail]
  rfl

lemma field_rangeBuf (kernelId m k d : ℕ) {sizes : List UInt8} (tail : List UInt8)
    (hsizes : sizes.length = 49) :
    field (rangeBuf kernelId m k d sizes tail) 0 4 = kernelId % 2 ^ 32 ∧
      field (rangeBuf kernelId m k d sizes tail) 53 1 = m % 2 ^ 8 ∧
      field (rangeBuf kernelId m k d sizes tail) 54 1 = k % 2 ^ 8 ∧
      field (rangeBuf kernelId m k d sizes tail) 55 1 = d % 2 ^ 8 := by
  refine ⟨field_leBytes 4 4 _ _ (Nat.le_refl 4), ?_, ?_, ?_⟩
  · rw [rangeBuf, field_append (by simp), field_append (by simp; omega)]
    simp only [length_leBytes, hsizes]
    exact field_leBytes 1 1 _ _ (Nat.le_refl 1)
  · rw [rangeBuf, field_append (by simp), field_append (by simp; omega),
      field_append (by simp [hsizes])]
    simp only [length_leBytes, hsizes]
    exact field_leBytes 1 1 _ _ (Nat.le_refl 1)
  · rw [rangeBuf, field_append (by simp), field_append (by simp; omega),
      field_append (by simp [hsizes]), field_append (by simp [hsizes])]
    simp only [length_leBytes, hsizes]
    exact field_leBytes 1 4 _ _ (by omega)

/-! ## The payload -/

/-- Messages go out as they are. -/
lemma transmit_msgs {msgs : List (List UInt8)} (h : ∀ msg ∈ msgs, msg.length = kMsgMaxSize) :
    transmit msgs = ⟨msgs.flatten, false⟩ :=
  transmit_small fun msg hmsg => by
    rw [h msg hmsg]
    decide

lemma length_flatten_msgs {msgs : List (List UInt8)} (h : ∀ msg ∈ msgs, msg.length = kMsgMaxSize) :
    msgs.flatten.length = kMsgMaxSize * msgs.length := by
  rw [List.length_flatten, List.map_congr_left h, List.map_const', List.sum_replicate_nat,
    Nat.mul_comm]

/-- What a range launch sends after its message. -/
def rangePayload (mems : List (List UInt8)) (constData : List UInt8)
    (consts : List (List UInt8)) : List (List UInt8) :=
  mems ++ (if constData.length % 2 ^ 32 > 0 then [constData] else []) ++ consts

lemma sends_range {workSize : List (ℕ × ℕ)} {args : PendingArgs} {stack : Stack} {msg : List UInt8}
    {mems consts : List (List UInt8)}
    (hmsg : rangeMessage kernelId workSize args.toClKernel = some msg)
    (hmems : sendMems stack.argSendBuf args.changedMemId = some mems)
    (hconsts : sendConsts stack.constSendBuf args.constDataInfo = some consts) :
    (Call.enqueueNDRangeKernel kernelId workSize args).sends stack =
      some (msg :: rangePayload mems args.constData consts) := by
  simp only [Call.sends, hmsg, hmems, hconsts, Option.bind_eq_bind, Option.bind_some, rangePayload,
    List.cons_append]

/-- The buffer arguments, the bytes of the by-value arguments and their entries. -/
lemma transmit_rangePayload {mems consts : List (List UInt8)} (constData : List UInt8)
    (hmems : ∀ msg ∈ mems, msg.length = kMsgMaxSize)
    (hconsts : ∀ msg ∈ consts, msg.length = kMsgMaxSize) :
    transmit (rangePayload mems constData consts) =
      ⟨mems.flatten ++ (constData.take (constData.length % 2 ^ 32) ++ consts.flatten), false⟩ := by
  have hdata : transmit (if constData.length % 2 ^ 32 > 0 then [constData] else []) =
      ⟨constData.take (constData.length % 2 ^ 32), false⟩ := by
    split
    · rename_i hpos
      rw [transmit_cons (by omega), transmit, List.append_nil]
    · rename_i hzero
      rw [show constData.length % 2 ^ 32 = 0 by omega, List.take_zero, transmit]
  have hfront := transmit_append (by rw [transmit_msgs hmems])
    (if constData.length % 2 ^ 32 > 0 then [constData] else [])
  rw [transmit_msgs hmems, hdata] at hfront
  rw [rangePayload, transmit_append (by rw [hfront]), hfront, transmit_msgs hconsts,
    List.append_assoc]

/-! ## The handler -/

/-- The sizes of the by-value arguments add up to the bytes the node has for them. -/
lemma sum_narrow (l : List (ℕ × ℕ)) :
    ((l.map (narrow 8)).map Prod.snd).sum % 2 ^ 32 = (l.map Prod.snd).sum % 2 ^ 32 := by
  rw [List.sum_nat_mod, List.sum_nat_mod (l.map Prod.snd), List.map_map, List.map_map,
    List.map_map]
  congr 2
  refine List.map_congr_left fun x _ => ?_
  show x.2 % 2 ^ (8 * 8) % 2 ^ 32 = x.2 % 2 ^ 32
  omega

/-- The list of the by-value arguments as the node gets it. -/
def receivedConsts (l : List (ℕ × ℕ)) : List (ℕ × ℕ) :=
  (l.take (l.length % 2 ^ 8)).map (narrow 8)

/-- No by-value argument is received, or the sizes received are those of the data that is. -/
lemma sum_receivedConsts (args : PendingArgs)
    (hk : args.constDataInfo.length ≤ 7 ∨ args.constDataInfo.length % 2 ^ 8 = 0)
    (hd : args.constData.length % 2 ^ 32 < 2 ^ 8) :
    receivedConsts args.constDataInfo = [] ∨
      ((receivedConsts args.constDataInfo).map Prod.snd).sum % 2 ^ 32 =
        args.constData.length % 2 ^ 8 % 2 ^ 32 := by
  by_cases hzero : args.constDataInfo.length % 2 ^ 8 = 0
  · left
    rw [receivedConsts, hzero]
    rfl
  · right
    have hfull : receivedConsts args.constDataInfo = args.constDataInfo.map (narrow 8) := by
      rw [receivedConsts, Nat.mod_eq_of_lt (by omega), List.take_length]
    rw [hfull, sum_narrow, ← args.length_eq]
    omega

/-- What the handler of a range launch makes of its message and payload. -/
lemma enqueueNDRangeKernel_yields (kernelId : ℕ) (tail : List UInt8) (args : PendingArgs)
    {mems consts : List (List UInt8)}
    (hsizes : sizes.length = 49) (hm : args.changedMemId.length < 2 ^ 8)
    (hnull : ∀ x ∈ args.changedMemId, x.2 % 2 ^ 32 ≠ nullMemId)
    (hk : args.constDataInfo.length ≤ 7 ∨ args.constDataInfo.length % 2 ^ 8 = 0)
    (hd : args.constData.length % 2 ^ 32 < 2 ^ 8)
    (hmems : Yields (recvEntries 4 12 (fun x => x.2 ≠ nullMemId)
      ((args.changedMemId.length + 11) / 12) args.changedMemId.length) mems.flatten
        (.ok (args.changedMemId.map (narrow 4))))
    (hconsts : Yields (recvEntries 8 7 (fun _ => true) ((args.constDataInfo.length % 2 ^ 8 + 6) / 7)
      (args.constDataInfo.length % 2 ^ 8)) consts.flatten
        (.ok (receivedConsts args.constDataInfo))) :
    ∃ comm globalWorkSize localWorkSize,
      handlerEnqueueNDRangeKernel (kernelId % 2 ^ 32) (args.changedMemId.map (narrow 4))
        (receivedConsts args.constDataInfo)
        (args.constData.take (args.constData.length % 2 ^ 32)) = some comm ∧
      Yields (Handler.enqueueNDRangeKernel (rangeBuf kernelId args.changedMemId.length
          args.constDataInfo.length args.constData.length sizes tail))
        (mems.flatten ++ (args.constData.take (args.constData.length % 2 ^ 32) ++ consts.flatten))
        (.ok (.enqueueNDRangeKernel comm globalWorkSize localWorkSize)) := by
  obtain ⟨data, hdata⟩ : ∃ data, data = args.constData.take (args.constData.length % 2 ^ 32) :=
    ⟨_, rfl⟩
  rw [← hdata]
  have hlength : data.length = args.constData.length % 2 ^ 8 := by
    rw [hdata, List.length_take_of_le (Nat.mod_le _ _)]
    omega
  have hnull' : ∀ x ∈ args.changedMemId.map (narrow 4), x.2 ≠ nullMemId := by
    intro x hx
    obtain ⟨y, hy, rfl⟩ := List.mem_map.1 hx
    exact hnull y hy
  have hinfo := sum_receivedConsts args hk hd
  rw [← hlength] at hinfo
  obtain ⟨comm, hcomm⟩ := handlerEnqueueNDRangeKernel_isSome (kernelId % 2 ^ 32) hnull' hinfo
  obtain ⟨buf, hbuf⟩ : ∃ buf, buf = rangeBuf kernelId args.changedMemId.length
    args.constDataInfo.length args.constData.length sizes tail := ⟨_, rfl⟩
  obtain ⟨hfieldId, hfieldM, hfieldK, hfieldD⟩ := field_rangeBuf kernelId
    args.changedMemId.length args.constDataInfo.length args.constData.length tail hsizes
  rw [← hbuf] at hfieldId hfieldM hfieldK hfieldD ⊢
  refine ⟨comm, (List.range (field buf 4 1)).map fun i => field buf (5 + 8 * i) 8,
    (List.range (field buf 4 1)).map fun i => field buf (5 + 24 + 8 * i) 8, hcomm, ?_⟩
  unfold Handler.enqueueNDRangeKernel
  simp only [hfieldId, hfieldM, hfieldK, hfieldD, Nat.mod_eq_of_lt hm]
  have hstop : Yields (Reader.orStop Stop.abort (some comm) : Recv CommandKernel) [] (.ok comm) :=
    Yields.orStop_some _ _
  rw [← hcomm] at hstop
  refine hmems.bind ?_
  rw [← hlength, ← List.append_nil consts.flatten]
  split
  · rename_i hpos
    refine (sockRecv_small data hpos (by omega)).bind (hconsts.bind ?_)
    exact hstop.bind_nil (Yields.pure _)
  · rename_i hzero
    have hnil : data = [] := List.length_eq_zero_iff.1 (by omega)
    rw [hnil] at hstop ⊢
    refine (Yields.pure []).bind_nil (hconsts.bind ?_)
    exact hstop.bind_nil (Yields.pure _)

/-- A buffer argument that is refused stops the handler. -/
lemma enqueueNDRangeKernel_refuses (kernelId k d : ℕ) {changedMemId : List (ℕ × ℕ)}
    (tail : List UInt8) {input : List UInt8} (hsizes : sizes.length = 49)
    (hm : changedMemId.length < 2 ^ 8)
    (hinput : Yields (recvEntries 4 12 (fun x => x.2 ≠ nullMemId)
      ((changedMemId.length + 11) / 12) changedMemId.length) input (.error .abort)) :
    Yields (Handler.enqueueNDRangeKernel
      (rangeBuf kernelId changedMemId.length k d sizes tail)) input (.error .abort) := by
  obtain ⟨-, hfieldM, -, -⟩ := field_rangeBuf kernelId changedMemId.length k d tail hsizes
  unfold Handler.enqueueNDRangeKernel
  simp only [hfieldM, Nat.mod_eq_of_lt hm]
  exact hinput.bind_error

/-- The handler goes by the counts in the message. -/
lemma enqueueNDRangeKernel_takes (kernelId m k d : ℕ) {sizes : List UInt8} (tail : List UInt8)
    (hsizes : sizes.length = 49) :
    Takes (Handler.enqueueNDRangeKernel (rangeBuf kernelId m k d sizes tail))
      (kMsgMaxSize * ((m % 2 ^ 8 + 11) / 12) +
        (d % 2 ^ 8 + (kMsgMaxSize * ((k % 2 ^ 8 + 6) / 7) + (0 + 0)))) := by
  obtain ⟨-, hfieldM, hfieldK, hfieldD⟩ := field_rangeBuf kernelId m k d tail hsizes
  unfold Handler.enqueueNDRangeKernel
  simp only [hfieldM, hfieldK, hfieldD]
  refine (recvEntries_takes 4 12 _ _ _).bind fun changedMemId => ?_
  split
  · have hdata := sockRecv_takes (d % 2 ^ 8)
    rw [Nat.mod_eq_of_lt (by omega : d % 2 ^ 8 < 2 ^ 32)] at hdata
    exact hdata.bind fun _ => (recvEntries_takes 8 7 _ _ _).bind fun _ =>
      (Takes.orStop _ _).bind fun _ => Takes.pure _
  · rename_i hzero
    rw [show d % 2 ^ 8 = 0 by omega]
    exact (Takes.pure _).bind fun _ => (recvEntries_takes 8 7 _ _ _).bind fun _ =>
      (Takes.orStop _ _).bind fun _ => Takes.pure _

end Range

end ElasticFramework
