import ElasticFramework.Properties.Framing
import Mathlib.Algebra.Order.BigOperators.Group.List

/-!
# By-value arguments on the wire

A launch carries its by-value arguments three times over: their number in one byte of the message,
their sizes in entries of seven to a message, and their bytes in one payload whose length is another
field of the message.  `ConstantsSurvive` says that what `HandlerEnqueueNDRangeKernel` puts into its
command is what was waiting on the client.

It is not so for every list of as many arguments as the byte can count.  The client writes the
entries of all messages into one buffer of sixty-four bytes (`const_buf_offset` is never set back),
which holds seven; and the handler reads the length of the payload, four bytes wide, as an
`unsigned char`.  `constants_survive_iff` is the exact extent.
-/

namespace ElasticFramework

open Reader

/-- The launch overruns no buffer, and the handler makes of it a command with the by-value
arguments and bytes of the client, to the last byte sent. -/
def ConstantsSurvive (kernelId : ℕ) (workSize : List (ℕ × ℕ)) (args : PendingArgs)
    (stack : Stack) : Prop :=
  ∃ bytes comm globalWorkSize localWorkSize,
    (⟨.enqueueNDRangeKernel kernelId workSize args, stack⟩ : Invocation).sent =
        some ⟨bytes, false⟩ ∧
      Yields nextRequest bytes (.ok (.enqueueNDRangeKernel comm globalWorkSize localWorkSize)) ∧
      comm.argConst = args.constDataInfo ∧ comm.constData = args.constData

section Range

variable {kernelId : ℕ} {workSize : List (ℕ × ℕ)} {args : PendingArgs} {stack : Stack}

/-- A launch always has something to send. -/
lemma enqueueNDRangeKernel_exited {sent : Sent}
    (h : (⟨.enqueueNDRangeKernel kernelId workSize args, stack⟩ : Invocation).sent = some sent) :
    sent.exited = false := by
  rw [Invocation.sent, Option.map_eq_some_iff] at h
  obtain ⟨l, hl, rfl⟩ := h
  simp only [Call.sends, Option.bind_eq_bind, Option.bind_eq_some_iff, Option.some.injEq] at hl
  obtain ⟨msg, hmsg, mems, hmems, consts, hconsts, rfl⟩ := hl
  obtain ⟨mems', hmems', hmem, -⟩ :=
    sendMems_delivers stack.argSendBuf args.changedMemId fun _ => true
  rw [hmems, Option.some.injEq] at hmems'
  subst hmems'
  have hconst : ∀ msg ∈ consts, msg.length = kMsgMaxSize := fun msg hmem =>
    ((length_sendEntries (fun _ => rfl) hconsts).2 msg hmem).trans stack.constSendBuf.2
  obtain ⟨sizes, tail, hsizes, htail, heq⟩ :=
    rangeMessage_eq kernelId args.toClKernel (length_of_rangeMessage hmsg)
  rw [hmsg, Option.some.injEq] at heq
  have hlength : msg.length = kMsgMaxSize := by
    rw [heq]
    simp only [List.length_append, length_leBytes, hsizes, htail]
    rfl
  have hpayload := transmit_rangePayload args.constData hmem hconst
  rw [rangePayload] at hpayload
  rw [List.cons_append, List.cons_append, transmit_message hlength, hpayload]

/-- What the handler is given of a framed launch. -/
lemma enqueueNDRangeKernel_comm {comm : CommandKernel} {r : Request} {g l : List ℕ}
    (hdecodes : (Call.enqueueNDRangeKernel kernelId workSize args).Decodes r)
    (hr : r = .enqueueNDRangeKernel comm g l) :
    comm.argConst = receivedConsts args.constDataInfo ∧
      comm.constData = args.constData.take (args.constData.length % 2 ^ 32) := by
  cases hdecodes with
  | enqueueNDRangeKernel _ _ _ comm' g' l' hcomm =>
      cases hr
      obtain ⟨-, rfl⟩ := handlerEnqueueNDRangeKernel_eq hcomm
      exact ⟨rfl, rfl⟩

/-- Indices that fit the byte they are kept in, and sizes of no more than the bytes there are, come
through as they are. -/
lemma receivedConsts_eq_self {l : List (ℕ × ℕ)} (hlength : l.length < 2 ^ 8)
    (hindex : ∀ x ∈ l, x.1 < 2 ^ 8) (hsum : (l.map Prod.snd).sum < 2 ^ 64) :
    receivedConsts l = l := by
  rw [receivedConsts, Nat.mod_eq_of_lt hlength, List.take_length]
  refine (List.map_congr_left fun x hx => ?_).trans (List.map_id l)
  have hle : x.2 ≤ (l.map Prod.snd).sum :=
    List.single_le_sum (fun _ _ => Nat.zero_le _) _ (List.mem_map_of_mem hx)
  have hfst : x.1 % 2 ^ 8 = x.1 := Nat.mod_eq_of_lt (hindex x hx)
  have hsnd : x.2 % 2 ^ (8 * 8) = x.2 := Nat.mod_eq_of_lt (by omega)
  rw [narrow, hfst, hsnd, id]

/-- A launch whose arguments come through is in step, whatever is sent after it. -/
lemma ConstantsSurvive.framed (h : ConstantsSurvive kernelId workSize args stack) :
    (Call.enqueueNDRangeKernel kernelId workSize args).Framed := by
  obtain ⟨bytes, comm, g, l, hsent, hyields, -⟩ := h
  have hstep : (⟨.enqueueNDRangeKernel kernelId workSize args, stack⟩ : Invocation).InStep [] :=
    ⟨_, hsent, by
      rw [if_neg Bool.false_ne_true]
      exact ⟨_, rfl, hyields []⟩⟩
  exact hstep.framed

/-- The bytes that come through are fewer than an `unsigned char` counts. -/
lemma ConstantsSurvive.length_constData (h : ConstantsSurvive kernelId workSize args stack) :
    args.constData.length < 2 ^ 8 := by
  have hframed := h.framed
  obtain ⟨bytes, comm, g, l, hsent, hyields, -, hdata⟩ := h
  obtain ⟨sent, r, hsent', hdecodes, hread⟩ :=
    Call.Framed.read (c := ⟨.enqueueNDRangeKernel kernelId workSize args, stack⟩) hframed
  rw [hsent, Option.some.injEq] at hsent'
  subst hsent'
  have hr : Except.ok r = Except.ok (Request.enqueueNDRangeKernel comm g l) :=
    congrArg Prod.fst ((hread []).symm.trans (hyields []))
  obtain ⟨-, htake⟩ := enqueueNDRangeKernel_comm hdecodes (Except.ok.inj hr)
  have hlength := congrArg List.length (hdata.symm.trans htake)
  rw [List.length_take_of_le (Nat.mod_le _ _)] at hlength
  obtain ⟨-, -, -, -, hd⟩ := hframed
  omega

end Range

/-- By-value arguments survive a launch exactly if the whole message is in bounds, there are no
more of them than one message of entries holds, and their bytes are fewer than two hundred and
fifty-six. -/
theorem constants_survive_iff (kernelId : ℕ) (workSize : List (ℕ × ℕ)) (args : PendingArgs)
    (stack : Stack) (hcount : args.constDataInfo.length ≤ 255)
    (hindex : ∀ x ∈ args.constDataInfo, x.1 < 2 ^ 8) :
    ConstantsSurvive kernelId workSize args stack ↔
      (workSize.length ≤ 3 ∧ args.changedMemId.length < 2 ^ 8 ∧
        ∀ x ∈ args.changedMemId, x.2 % 2 ^ 32 ≠ nullMemId) ∧
      args.constDataInfo.length ≤ 7 ∧ args.constData.length < 2 ^ 8 := by
  constructor
  · intro h
    obtain ⟨hdim, hm, hnull, hk, -⟩ := h.framed
    exact ⟨⟨hdim, hm, hnull⟩, by omega, h.length_constData⟩
  · rintro ⟨⟨hdim, hm, hnull⟩, hk, hd⟩
    have hmod : args.constData.length % 2 ^ 32 = args.constData.length :=
      Nat.mod_eq_of_lt (by omega)
    have hframed : (Call.enqueueNDRangeKernel kernelId workSize args).Framed :=
      ⟨hdim, hm, hnull, Or.inl hk, by omega⟩
    obtain ⟨⟨bytes, exited⟩, r, hsent, hdecodes, hread⟩ :=
      Call.Framed.read (c := ⟨.enqueueNDRangeKernel kernelId workSize args, stack⟩) hframed
    have hexited : exited = false := enqueueNDRangeKernel_exited hsent
    subst hexited
    obtain ⟨comm, g, l, hr⟩ : ∃ comm g l, r = .enqueueNDRangeKernel comm g l := by
      cases hdecodes with
      | enqueueNDRangeKernel _ _ _ comm g l _ => exact ⟨comm, g, l, rfl⟩
    obtain ⟨hinfo, hdata⟩ := enqueueNDRangeKernel_comm hdecodes hr
    subst hr
    refine ⟨bytes, comm, g, l, hsent, hread, ?_, ?_⟩
    · have hsum := args.length_eq
      rw [hinfo, receivedConsts_eq_self (by omega) hindex (by omega)]
    · rw [hdata, hmod, List.take_length]

/-- Arguments with one constant of `n` bytes. -/
def oneConstant (n : ℕ) : PendingArgs where
  isPointer := [false]
  changedMemId := []
  constDataInfo := [(0, n)]
  constData := List.replicate n 0
  length_eq := by simp

/-- Four bytes survive. -/
theorem four_bytes_survive :
    ConstantsSurvive 0 [(1, 1)] (oneConstant 4) clearStack :=
  (constants_survive_iff 0 [(1, 1)] (oneConstant 4) clearStack (by decide) (by decide)).2
    (by decide)

/-- One argument of two hundred and fifty-six bytes does not. -/
theorem long_constant_lost :
    ¬ ConstantsSurvive 0 [(1, 1)] (oneConstant 256) clearStack := by
  intro h
  have hlength := h.length_constData
  rw [oneConstant, List.length_replicate] at hlength
  omega

end ElasticFramework
