import ElasticFramework.Properties.RangeLaunch

/-!
# Request framing

The main socket carries nothing but the bytes of one call after the other, so the node is in step
with the client as long as every handler takes exactly what its call has sent.  `Call.Framed` says
of which calls that is true: it fails where a payload is not read (the options of
`clBuildProgram`), where a count is cut to the byte it travels in, where a buffer overflows, and
where the node does not know the request or refuses it.

`Framed.read` and `framed_of_inStep` are the two directions for one call, and `in_step_iff` is the
statement about every sequence of calls.
-/

namespace ElasticFramework

open Reader

/-! ## What the node should make of a call -/

/-- The request of a call; numbers are as wide as the fields they are read from. -/
inductive Call.Decodes : Call → Request → Prop
  | register (clientWeight : ℕ) :
    Decodes (.register clientWeight) (.register (clientWeight % 2 ^ 64))
  | createProgramWithSource (id : ℕ) (s : Sources) :
    Decodes (.createProgramWithSource id s) (.createProgramWithSource
      (s.strings.map fun x => s.sendLength x.2 % 2 ^ 64)
      (s.strings.map fun x => bytesOf x.1 (s.sendLength x.2 % 2 ^ 32)))
  | buildProgram (programId : ℕ) (options : Option CString) :
    Decodes (.buildProgram programId options) (.buildProgram (programId % 2 ^ 32))
  | createKernel (programId : ℕ) (name : CString) :
    Decodes (.createKernel programId name)
      (.createKernel (programId % 2 ^ 32) (bytesOf name.mem (name.strlen % 2 ^ 32)))
  | enqueueTask (kernelId : ℕ) :
    Decodes (.enqueueTask kernelId) (.enqueueTask (handlerEnqueueTask (kernelId % 2 ^ 32)))
  | createBuffer (flags size : ℕ) (hostPtr : ℕ → UInt8) :
    Decodes (.createBuffer flags size hostPtr) (.createBuffer (flags % 2 ^ 64) (size % 2 ^ 64)
      (if copiesHostPtr flags then some (bytesOf hostPtr (size % 2 ^ 32)) else none))
  | enqueueReadBuffer (memId offset cb : ℕ) (blockingRead : UInt32) :
    Decodes (.enqueueReadBuffer memId offset cb blockingRead)
      (.enqueueReadBuffer (memId % 2 ^ 32) (offset % 2 ^ 64) (cb % 2 ^ 64) blockingRead.toNat)
  | enqueueWriteBuffer (memId offset cb : ℕ) (blockingWrite : UInt32) (ptr : ℕ → UInt8) :
    Decodes (.enqueueWriteBuffer memId offset cb blockingWrite ptr)
      (.enqueueWriteBuffer (memId % 2 ^ 32) (offset % 2 ^ 64) (cb % 2 ^ 64) blockingWrite.toNat
        (bytesOf ptr (cb % 2 ^ 32)))
  | finish : Decodes .finish (.finish 0)
  | enqueueNDRangeKernel (kernelId : ℕ) (workSize : List (ℕ × ℕ)) (args : PendingArgs)
      (comm : CommandKernel) (globalWorkSize localWorkSize : List ℕ)
      (hcomm : handlerEnqueueNDRangeKernel (kernelId % 2 ^ 32)
        (args.changedMemId.map (narrow 4)) (receivedConsts args.constDataInfo)
        (args.constData.take (args.constData.length % 2 ^ 32)) = some comm) :
    Decodes (.enqueueNDRangeKernel kernelId workSize args)
      (.enqueueNDRangeKernel comm globalWorkSize localWorkSize)
  | enqueueCopyBuffer (srcId dstId srcOffset dstOffset cb : ℕ) :
    Decodes (.enqueueCopyBuffer srcId dstId srcOffset dstOffset cb)
      (.enqueueCopyBuffer (srcId % 2 ^ 32) (dstId % 2 ^ 32) (srcOffset % 2 ^ 64)
        (dstOffset % 2 ^ 64) (cb % 2 ^ 64))
  | releaseMemObject (memId : ℕ) :
    Decodes (.releaseMemObject memId) (.releaseMemObject (memId % 2 ^ 32))

lemma Call.Decodes.msgType {c : Call} {r : Request} (h : c.Decodes r) : r.msgType = c.msgType := by
  cases h <;> rfl

/-- The handler of the call takes all that the call sends, and no more. -/
def Call.Framed : Call → Prop
  | createProgramWithSource _ sources => sources.strings.length < 2 ^ 31
  | buildProgram _ options => options.elim 0 CString.strlen % 2 ^ 32 = 0
  | createKernel _ kernelName => (kernelName.strlen + 1) % 2 ^ 32 ≠ 0
  | createBuffer flags size _ => copiesHostPtr flags ∨ size % 2 ^ 64 ≠ 0
  | enqueueNDRangeKernel _ workSize args =>
    workSize.length ≤ 3 ∧ args.changedMemId.length < 2 ^ 8 ∧
      (∀ x ∈ args.changedMemId, x.2 % 2 ^ 32 ≠ nullMemId) ∧
      (args.constDataInfo.length ≤ 7 ∨ args.constDataInfo.length % 2 ^ 8 = 0) ∧
      args.constData.length % 2 ^ 32 < 2 ^ 8
  | bullet3ReadResultBack _ => False
  | bullet3WriteToGPU _ _ => False
  | _ => True

instance : DecidablePred Call.Framed := fun c =>
  match c with
  | .createProgramWithSource _ _ => inferInstanceAs (Decidable (_ < _))
  | .buildProgram _ _ => inferInstanceAs (Decidable (_ = _))
  | .createKernel _ _ => inferInstanceAs (Decidable (_ ≠ _))
  | .createBuffer _ _ _ => inferInstanceAs (Decidable (_ ∨ _))
  | .enqueueNDRangeKernel _ _ _ => inferInstanceAs (Decidable (_ ∧ _))
  | .bullet3ReadResultBack _ | .bullet3WriteToGPU _ _ => isFalse id
  | .register _ | .enqueueTask _ | .enqueueReadBuffer _ _ _ _ | .enqueueWriteBuffer _ _ _ _ _
  | .finish | .enqueueCopyBuffer _ _ _ _ _ | .releaseMemObject _ => isTrue trivial

namespace Invocation

/-- The node takes what the call sends and decodes the call from it; where the client exits for
want of bytes to send, the node exits for want of bytes to receive. -/
def Read (c : Invocation) : Prop :=
  ∃ sent r, c.sent = some sent ∧ c.call.Decodes r ∧
    Yields nextRequest sent.bytes (endsWith sent.exited r)

/-- A call is read if the handler its message goes to reads its payload. -/
lemma read_of_payload {c : Invocation} {msg : List UInt8} {payload : List (List UInt8)}
    {r : Request} (hsends : c.call.sends c.stack = some (msg :: payload))
    (hmsg : msg.length = kMsgMaxSize) (hdecodes : c.call.Decodes r)
    (hdispatch : Yields (dispatch msg) (transmit payload).bytes
      (endsWith (transmit payload).exited r)) : c.Read := by
  refine ⟨⟨msg ++ (transmit payload).bytes, (transmit payload).exited⟩, r, ?_, hdecodes,
    nextRequest_yields hmsg hdispatch⟩
  rw [Invocation.sent, hsends, Option.map_some, transmit_message hmsg]

/-- A call whose message is a list of fields. -/
lemma sends_fields (c : Invocation) (buf : MsgBuf) (type : MsgType) (fields : List (List UInt8))
    (payload : List (List UInt8)) (hroom : 4 + fields.flatten.length ≤ kMsgMaxSize)
    (hsends : ∀ msg, message buf type fields = some msg →
      c.call.sends c.stack = some (msg :: payload)) :
    ∃ tail, c.call.sends c.stack =
        some ((leBytes 4 type.num ++ (fields.flatten ++ tail)) :: payload) ∧
      (leBytes 4 type.num ++ (fields.flatten ++ tail)).length = kMsgMaxSize := by
  obtain ⟨tail, hmessage, hlength⟩ := message_eq buf type hroom
  exact ⟨tail, hsends _ hmessage, hlength⟩

lemma read_of_sends {c : Invocation} (buf : MsgBuf) (type : MsgType) (fields : List (List UInt8))
    (payload : List (List UInt8)) {r : Request} (hroom : 4 + fields.flatten.length ≤ kMsgMaxSize)
    (hsends : ∀ msg, message buf type fields = some msg →
      c.call.sends c.stack = some (msg :: payload))
    (hdecodes : c.call.Decodes r)
    (hdispatch : ∀ tail, Yields (dispatch (leBytes 4 type.num ++ (fields.flatten ++ tail)))
      (transmit payload).bytes (endsWith (transmit payload).exited r)) : c.Read := by
  obtain ⟨tail, hsends, hlength⟩ := sends_fields c buf type fields payload hroom hsends
  exact read_of_payload hsends hlength hdecodes (hdispatch tail)

/-- A call of one message. -/
lemma read_of_message {c : Invocation} (buf : MsgBuf) (type : MsgType)
    (fields : List (List UInt8)) {r : Request} (hroom : 4 + fields.flatten.length ≤ kMsgMaxSize)
    (hsends : ∀ msg, message buf type fields = some msg → c.call.sends c.stack = some [msg])
    (hdecodes : c.call.Decodes r)
    (hdispatch : ∀ tail, dispatch (leBytes 4 type.num ++ (fields.flatten ++ tail)) = pure r) :
    c.Read :=
  read_of_sends buf type fields [] hroom hsends hdecodes fun tail => by
    rw [hdispatch tail]
    exact Yields.pure r

end Invocation

/-! ## Calls with a payload -/

section Payload

variable (stack : Stack)

/-- A payload received with the length from the message. -/
lemma sockRecv_bytesOf (mem : ℕ → UInt8) (n m : ℕ) (h : m % 2 ^ 32 = n % 2 ^ 32) :
    Yields (sockRecv m) (transmit [bytesOf mem n]).bytes
      (endsWith (transmit [bytesOf mem n]).exited (bytesOf mem (n % 2 ^ 32))) := by
  have hrecv := sockRecv_yields m (bytesOf mem n) (by rw [length_bytesOf]; exact h)
  rwa [length_bytesOf, take_bytesOf mem (Nat.mod_le _ _)] at hrecv

/-- The number of strings, where the handler looks for it. -/
lemma field_count (sources : Sources) (id : ℕ) (tail : List UInt8) :
    field (leBytes 4 MsgType.createProgramWithSource.num ++
      ([leBytes 4 sources.strings.length, leBytes 4 id].flatten ++ tail)) 4 4 =
        sources.strings.length := by
  have hlt := sources.count_lt
  simp only [List.flatten_cons, List.append_assoc]
  rw [field_append (by simp), length_leBytes, field_leBytes 4 4 _ _ le_rfl]
  omega

lemma createProgramWithSource_read (id : ℕ) (sources : Sources)
    (h : sources.strings.length < 2 ^ 31) :
    (⟨.createProgramWithSource id sources, stack⟩ : Invocation).Read := by
  refine Invocation.read_of_sends zeroed .createProgramWithSource
    [leBytes 4 sources.strings.length, leBytes 4 id]
    ((sources.strings.map fun s => leBytes 8 (sources.sendLength s.2)) ++
      sources.strings.map fun s => bytesOf s.1 (sources.sendLength s.2))
    (by simp [kMsgMaxSize]) (fun msg hmsg => by simp [Call.sends, hmsg])
    (.createProgramWithSource id sources) fun tail => ?_
  have hlengths : transmit (sources.strings.map fun s => leBytes 8 (sources.sendLength s.2)) =
      ⟨(sources.strings.map fun s => leBytes 8 (sources.sendLength s.2)).flatten, false⟩ := by
    refine transmit_small fun data hdata => ?_
    obtain ⟨s, -, rfl⟩ := List.mem_map.1 hdata
    rw [length_leBytes]
    omega
  have hrecv := recvLengths_yields (sources.strings.map fun s => sources.sendLength s.2)
  rw [List.length_map, List.map_map, List.map_map] at hrecv
  have hagree : List.Forall₂ (fun n (str : List UInt8) => n % 2 ^ 32 = str.length % 2 ^ 32)
      (sources.strings.map fun s => sources.sendLength s.2 % 2 ^ 64)
      (sources.strings.map fun s => bytesOf s.1 (sources.sendLength s.2)) := by
    rw [List.forall₂_map_left_iff, List.forall₂_map_right_iff, List.forall₂_same]
    intro s _
    rw [length_bytesOf]
    omega
  have hstrs := recvStrs_yields hagree
  have hcut : (sources.strings.map fun s => bytesOf s.1 (sources.sendLength s.2)).map
      (fun str => str.take (str.length % 2 ^ 32)) =
        sources.strings.map fun s => bytesOf s.1 (sources.sendLength s.2 % 2 ^ 32) := by
    rw [List.map_map]
    refine List.map_congr_left fun s _ => ?_
    show (bytesOf _ _).take ((bytesOf _ _).length % 2 ^ 32) = _
    rw [length_bytesOf, take_bytesOf _ (Nat.mod_le _ _)]
  rw [hcut] at hstrs
  rw [transmit_append (by rw [hlengths]), hlengths, dispatch_message]
  simp only [Handler.createProgramWithSource, field_count, if_pos h]
  exact hrecv.bind (endsWith_map hstrs _)

/-- Without options there is nothing but the message. -/
lemma buildProgram_read (programId : ℕ) (options : Option CString)
    (h : options.elim 0 CString.strlen % 2 ^ 32 = 0) :
    (⟨.buildProgram programId options, stack⟩ : Invocation).Read := by
  refine Invocation.read_of_message zeroed .buildProgram [leBytes 4 programId, leBytes 4 0]
    (by simp [kMsgMaxSize]) (fun msg hmsg => ?_) (.buildProgram programId options) fun tail => ?_
  · cases options with
    | none => simp [Call.sends, hmsg]
    | some options =>
        rw [Option.elim_some] at h
        simp only [Call.sends, Option.elim_some, h]
        simp [hmsg]
  · rw [dispatch_message]
    simp [Handler.buildProgram, field_append, field_leBytes]

lemma createKernel_read (programId : ℕ) (kernelName : CString)
    (h : (kernelName.strlen + 1) % 2 ^ 32 ≠ 0) :
    (⟨.createKernel programId kernelName, stack⟩ : Invocation).Read := by
  refine Invocation.read_of_sends zeroed .createKernel
    [leBytes 4 programId, leBytes 8 kernelName.strlen] [bytesOf kernelName.mem kernelName.strlen]
    (by simp [kMsgMaxSize]) (fun msg hmsg => by simp [Call.sends, hmsg])
    (.createKernel programId kernelName) fun tail => ?_
  obtain ⟨buf, hbuf⟩ : ∃ buf, buf =
    [leBytes 4 programId, leBytes 8 kernelName.strlen].flatten ++ tail := ⟨_, rfl⟩
  have hid : field buf 0 4 = programId % 2 ^ 32 := by
    simp [hbuf, field_leBytes]
  have hlength : field buf 4 4 = kernelName.strlen % 2 ^ 32 := by
    simp [hbuf, field_append, field_leBytes]
  have hname := sockRecv_bytesOf kernelName.mem kernelName.strlen (kernelName.strlen % 2 ^ 32)
    (Nat.mod_mod _ _)
  rw [dispatch_message, ← hbuf]
  simp only [Handler.createKernel, hid, hlength]
  rw [if_neg (by omega)]
  exact endsWith_map hname _

lemma copiesHostPtr_mod (flags : ℕ) : copiesHostPtr (flags % 2 ^ 64) = copiesHostPtr flags := by
  rw [copiesHostPtr, Nat.testBit_mod_two_pow, copiesHostPtr]
  simp

/-- A buffer is filled with a payload, or not filled and not empty. -/
lemma createBuffer_read (flags size : ℕ) (hostPtr : ℕ → UInt8)
    (h : copiesHostPtr flags ∨ size % 2 ^ 64 ≠ 0) :
    (⟨.createBuffer flags size hostPtr, stack⟩ : Invocation).Read := by
  refine Invocation.read_of_sends zeroed .createBuffer [leBytes 8 flags, leBytes 8 size]
    (if copiesHostPtr flags then [bytesOf hostPtr size] else []) (by simp [kMsgMaxSize])
    (fun msg hmsg => ?_) (.createBuffer flags size hostPtr) fun tail => ?_
  · simp only [Call.sends, hmsg, Option.bind_eq_bind, Option.bind_some]
    split <;> rfl
  · obtain ⟨buf, hbuf⟩ : ∃ buf, buf = [leBytes 8 flags, leBytes 8 size].flatten ++ tail := ⟨_, rfl⟩
    have hflags : field buf 0 8 = flags % 2 ^ 64 := by
      simp [hbuf, field_leBytes]
    have hsize : field buf 8 8 = size % 2 ^ 64 := by
      simp [hbuf, field_append, field_leBytes]
    rw [dispatch_message, ← hbuf]
    simp only [Handler.createBuffer, hflags, hsize, copiesHostPtr_mod]
    by_cases hcopies : copiesHostPtr flags
    · rw [if_pos hcopies, if_pos hcopies, if_pos hcopies]
      have hdata := sockRecv_bytesOf hostPtr size (size % 2 ^ 64) (by omega)
      -- A size of zero ends client and node before the node refuses it.
      by_cases hzero : size % 2 ^ 64 = 0
      · rw [transmit_exit (by rw [length_bytesOf]; omega)] at hdata ⊢
        exact Yields.bind_error hdata
      · simp only [if_pos hzero]
        exact endsWith_map hdata _
    · have hpos := h.resolve_left hcopies
      rw [if_neg hcopies, if_neg hcopies, if_neg hcopies]
      simp only [if_pos hpos]
      exact (Yields.pure none).bind_nil (Yields.pure _)

lemma enqueueWriteBuffer_read (memId offset cb : ℕ) (blockingWrite : UInt32) (ptr : ℕ → UInt8) :
    (⟨.enqueueWriteBuffer memId offset cb blockingWrite ptr, stack⟩ : Invocation).Read := by
  refine Invocation.read_of_sends zeroed .enqueueWriteBuffer
    [leBytes 8 offset, leBytes 8 cb, leBytes 4 memId, leBytes 4 blockingWrite.toNat]
    [bytesOf ptr cb] (by simp [kMsgMaxSize]) (fun msg hmsg => by simp [Call.sends, hmsg])
    (.enqueueWriteBuffer memId offset cb blockingWrite ptr) fun tail => ?_
  obtain ⟨buf, hbuf⟩ : ∃ buf, buf = [leBytes 8 offset, leBytes 8 cb, leBytes 4 memId,
    leBytes 4 blockingWrite.toNat].flatten ++ tail := ⟨_, rfl⟩
  have hoffset : field buf 0 8 = offset % 2 ^ 64 := by
    simp [hbuf, field_leBytes]
  have hcb : field buf 8 8 = cb % 2 ^ 64 := by
    simp [hbuf, field_append, field_leBytes]
  have hmem : field buf 16 4 = memId % 2 ^ 32 := by
    simp [hbuf, field_append, field_leBytes]
  have hblocking : field buf 20 4 = blockingWrite.toNat := by
    simp [hbuf, field_append, field_leBytes, Nat.mod_eq_of_lt blockingWrite.toNat_lt]
  rw [dispatch_message, ← hbuf]
  simp only [Handler.enqueueWriteBuffer, hoffset, hcb, hmem, hblocking]
  exact endsWith_map (sockRecv_bytesOf ptr cb (cb % 2 ^ 64) (by omega)) _

lemma enqueueNDRangeKernel_read (kernelId : ℕ) (workSize : List (ℕ × ℕ)) (args : PendingArgs)
    (h : (Call.enqueueNDRangeKernel kernelId workSize args).Framed) :
    (⟨.enqueueNDRangeKernel kernelId workSize args, stack⟩ : Invocation).Read := by
  obtain ⟨hdim, hm, hnull, hk, hd⟩ := h
  obtain ⟨sizes, tail, hsizes, htail, hmsg⟩ := rangeMessage_eq kernelId args.toClKernel hdim
  obtain ⟨mems, hmems, hlengthMems, -, hdelivers⟩ :=
    sendMems_delivers stack.argSendBuf args.changedMemId fun x => x.2 ≠ nullMemId
  obtain ⟨consts, hconsts, hlengthConsts, hyields⟩ := sendConsts_delivers stack.constSendBuf hk
  have hall : (args.changedMemId.map (narrow 4)).all (fun x => x.2 ≠ nullMemId) = true := by
    rw [List.all_map, List.all_eq_true]
    intro x hx
    exact decide_eq_true (hnull x hx)
  rw [Delivers, hall, if_pos rfl] at hdelivers
  obtain ⟨comm, globalWorkSize, localWorkSize, hcomm, hhandler⟩ := enqueueNDRangeKernel_yields
    kernelId tail args hsizes hm hnull hk hd hdelivers hyields
  have hlength := length_rangeMsg kernelId args.changedMemId.length args.constDataInfo.length
    args.constData.length hsizes htail
  refine Invocation.read_of_payload (sends_range hmsg hmems hconsts) hlength
    (.enqueueNDRangeKernel kernelId workSize args comm globalWorkSize localWorkSize hcomm) ?_
  rw [transmit_rangePayload args.constData hlengthMems hlengthConsts, dispatch_message]
  exact hhandler

end Payload

/-- A framed call is read. -/
theorem Call.Framed.read {c : Invocation} (h : c.call.Framed) : c.Read := by
  obtain ⟨call, stack⟩ := c
  cases call with
  | register clientWeight =>
      refine Invocation.read_of_message zeroed .reg [leBytes 8 clientWeight]
        (by simp [kMsgMaxSize]) (fun msg hmsg => by simp [Call.sends, hmsg])
        (.register clientWeight) fun tail => ?_
      rw [dispatch_message]
      simp [Handler.register, field_leBytes]
  | createProgramWithSource id sources => exact createProgramWithSource_read stack id sources h
  | buildProgram programId options => exact buildProgram_read stack programId options h
  | createKernel programId kernelName => exact createKernel_read stack programId kernelName h
  | enqueueTask kernelId =>
      refine Invocation.read_of_message zeroed .enqueueTask [leBytes 4 kernelId]
        (by simp [kMsgMaxSize]) (fun msg hmsg => by simp [Call.sends, hmsg])
        (.enqueueTask kernelId) fun tail => ?_
      rw [dispatch_message]
      simp [Handler.enqueueTask, field_leBytes]
  | createBuffer flags size hostPtr => exact createBuffer_read stack flags size hostPtr h
  | enqueueReadBuffer memId offset cb blockingRead =>
      refine Invocation.read_of_message zeroed .enqueueReadBuffer
        [leBytes 8 offset, leBytes 8 cb, leBytes 4 memId, leBytes 4 blockingRead.toNat]
        (by simp [kMsgMaxSize]) (fun msg hmsg => by simp [Call.sends, hmsg])
        (.enqueueReadBuffer memId offset cb blockingRead) fun tail => ?_
      rw [dispatch_message]
      simp [Handler.enqueueReadBuffer, field_append, field_leBytes,
        Nat.mod_eq_of_lt blockingRead.toNat_lt]
  | enqueueWriteBuffer memId offset cb blockingWrite ptr =>
      exact enqueueWriteBuffer_read stack memId offset cb blockingWrite ptr
  | finish =>
      refine Invocation.read_of_message stack.sendBuf .finish [leBytes 4 0]
        (by simp [kMsgMaxSize]) (fun msg hmsg => by simp [Call.sends, hmsg]) .finish fun tail => ?_
      rw [dispatch_message]
      simp [Handler.finish, field_leBytes]
  | enqueueNDRangeKernel kernelId workSize args =>
      exact enqueueNDRangeKernel_read stack kernelId workSize args h
  | enqueueCopyBuffer srcId dstId srcOffset dstOffset cb =>
      refine Invocation.read_of_message stack.sendBuf .enqueueCopyBuffer
        [leBytes 4 srcId, leBytes 4 dstId, leBytes 8 srcOffset, leBytes 8 dstOffset, leBytes 8 cb]
        (by simp [kMsgMaxSize]) (fun msg hmsg => by simp [Call.sends, hmsg])
        (.enqueueCopyBuffer srcId dstId srcOffset dstOffset cb) fun tail => ?_
      rw [dispatch_message]
      simp [Handler.enqueueCopyBuffer, field_append, field_leBytes]
  | releaseMemObject memId =>
      refine Invocation.read_of_message stack.sendBuf .releaseMemObject [leBytes 4 memId]
        (by simp [kMsgMaxSize]) (fun msg hmsg => by simp [Call.sends, hmsg])
        (.releaseMemObject memId) fun tail => ?_
      rw [dispatch_message]
      simp [Handler.releaseMemObject, field_leBytes]
  | bullet3ReadResultBack dataSize => exact h.elim
  | bullet3WriteToGPU phase data => exact h.elim

/-! ## Staying in step -/

namespace Invocation

/-- With the calls after it sending `rest`, the round of `Run` for the call takes exactly what the
call sends and handles a request of its kind; where the client exits, the node exits too. -/
def InStep (c : Invocation) (rest : List UInt8) : Prop :=
  ∃ sent, c.sent = some sent ∧
    if sent.exited then nextRequest sent.bytes = (.error .exit, [])
    else ∃ r, r.msgType = c.call.msgType ∧ nextRequest (sent.bytes ++ rest) = (.ok r, rest)

lemma Read.inStep {c : Invocation} (h : c.Read) (rest : List UInt8) : c.InStep rest := by
  obtain ⟨sent, r, hsent, hdecodes, hyields⟩ := h
  refine ⟨sent, hsent, ?_⟩
  cases hexited : sent.exited with
  | true =>
      have hexit := hyields []
      rw [List.append_nil, hexited] at hexit
      exact hexit
  | false =>
      have hok := hyields rest
      rw [hexited] at hok
      exact ⟨r, hdecodes.msgType, hok⟩

section Payload

variable {c : Invocation} {rest : List UInt8} {msg : List UInt8} {payload : List (List UInt8)}

/-- The handler the message goes to, in a round that is in step. -/
lemma InStep.dispatch (h : c.InStep rest) (hsends : c.call.sends c.stack = some (msg :: payload))
    (hmsg : msg.length = kMsgMaxSize) :
    if (transmit payload).exited then
      ElasticFramework.dispatch msg (transmit payload).bytes = (.error .exit, [])
    else ∃ r, ElasticFramework.dispatch msg ((transmit payload).bytes ++ rest) = (.ok r, rest) := by
  obtain ⟨sent, hsent, hstep⟩ := h
  rw [Invocation.sent, hsends, Option.map_some, transmit_message hmsg, Option.some.injEq] at hsent
  subst hsent
  split
  · rename_i hexited
    rw [if_pos hexited, nextRequest_message hmsg] at hstep
    exact hstep
  · rename_i hexited
    rw [if_neg hexited] at hstep
    obtain ⟨r, -, hok⟩ := hstep
    rw [List.append_assoc, nextRequest_message hmsg] at hok
    exact ⟨r, hok⟩

/-- A handler that stops for another reason than the end of the session is not in step. -/
lemma InStep.eq_exit {e : Stop} (h : c.InStep rest)
    (hsends : c.call.sends c.stack = some (msg :: payload)) (hmsg : msg.length = kMsgMaxSize)
    (hdispatch : ∀ input, ∃ left, ElasticFramework.dispatch msg input = (.error e, left)) :
    e = .exit := by
  have hstep := h.dispatch hsends hmsg
  split at hstep
  · obtain ⟨left, hleft⟩ := hdispatch (transmit payload).bytes
    rw [hleft] at hstep
    cases hstep
    rfl
  · obtain ⟨r, hok⟩ := hstep
    obtain ⟨left, hleft⟩ := hdispatch ((transmit payload).bytes ++ rest)
    rw [hleft] at hok
    cases hok

/-- A handler that takes a fixed number of bytes takes those that were sent. -/
lemma InStep.takes {n : ℕ} (h : c.InStep rest)
    (hsends : c.call.sends c.stack = some (msg :: payload)) (hmsg : msg.length = kMsgMaxSize)
    (hexited : (transmit payload).exited = false)
    (htakes : Takes (ElasticFramework.dispatch msg) n) : (transmit payload).bytes.length = n := by
  have hstep := h.dispatch hsends hmsg
  rw [hexited, if_neg Bool.false_ne_true] at hstep
  obtain ⟨r, hok⟩ := hstep
  have hlength := htakes _ r rest hok
  rw [List.length_append] at hlength
  omega

end Payload

end Invocation

/-! ## Calls that are not framed -/

section Converse

variable {stack : Stack} {rest : List UInt8}

/-- There is no array for a negative number of strings. -/
lemma createProgramWithSource_framed {id : ℕ} {sources : Sources}
    (h : (⟨.createProgramWithSource id sources, stack⟩ : Invocation).InStep rest) :
    (Call.createProgramWithSource id sources).Framed := by
  by_contra hcount
  change ¬ sources.strings.length < 2 ^ 31 at hcount
  obtain ⟨tail, hsends, hmsg⟩ := Invocation.sends_fields
    ⟨.createProgramWithSource id sources, stack⟩ zeroed .createProgramWithSource
    [leBytes 4 sources.strings.length, leBytes 4 id]
    ((sources.strings.map fun s => leBytes 8 (sources.sendLength s.2)) ++
      sources.strings.map fun s => bytesOf s.1 (sources.sendLength s.2))
    (by simp [kMsgMaxSize]) (fun msg hmsg => by simp [Call.sends, hmsg])
  have hstop := h.eq_exit (e := .abort) hsends hmsg fun input => by
    rw [dispatch_message]
    simp only [Handler.createProgramWithSource, field_count, if_neg hcount]
    exact ⟨input, rfl⟩
  cases hstop

/-- The options of a build are taken for the next message. -/
lemma buildProgram_framed {programId : ℕ} {options : Option CString}
    (h : (⟨.buildProgram programId options, stack⟩ : Invocation).InStep rest) :
    (Call.buildProgram programId options).Framed := by
  cases options with
  | none => rfl
  | some options =>
      by_contra hlength
      change ¬ options.strlen % 2 ^ 32 = 0 at hlength
      obtain ⟨tail, hsends, hmsg⟩ := Invocation.sends_fields
        ⟨.buildProgram programId (some options), stack⟩ zeroed .buildProgram
        [leBytes 4 programId, leBytes 4 (options.strlen % 2 ^ 32)]
        [bytesOf options.mem (options.strlen % 2 ^ 32)] (by simp [kMsgMaxSize])
        (fun msg hmsg => by
          rw [Call.sends, Option.elim_some, hmsg]
          exact if_pos hlength)
      have hsmall : ∀ data ∈ [bytesOf options.mem (options.strlen % 2 ^ 32)],
          0 < data.length ∧ data.length < 2 ^ 32 := by
        intro data hdata
        rw [List.mem_singleton.1 hdata, length_bytesOf]
        omega
      have htakes := h.takes (n := 0) hsends hmsg (by rw [transmit_small hsmall]) (by
        rw [dispatch_message]
        exact Takes.pure _)
      rw [transmit_small hsmall, List.flatten_cons, List.length_append, length_bytesOf] at htakes
      omega

/-- The longest name gets a buffer of no bytes. -/
lemma createKernel_framed {programId : ℕ} {kernelName : CString}
    (h : (⟨.createKernel programId kernelName, stack⟩ : Invocation).InStep rest) :
    (Call.createKernel programId kernelName).Framed := by
  by_contra hlength
  change ¬ (kernelName.strlen + 1) % 2 ^ 32 ≠ 0 at hlength
  obtain ⟨tail, hsends, hmsg⟩ := Invocation.sends_fields
    ⟨.createKernel programId kernelName, stack⟩ zeroed .createKernel
    [leBytes 4 programId, leBytes 8 kernelName.strlen] [bytesOf kernelName.mem kernelName.strlen]
    (by simp [kMsgMaxSize]) (fun msg hmsg => by simp [Call.sends, hmsg])
  have hfield : field ([leBytes 4 programId, leBytes 8 kernelName.strlen].flatten ++ tail) 4 4 =
      kernelName.strlen % 2 ^ 32 := by
    simp [field_append, field_leBytes]
  have hstop := h.eq_exit (e := .overrun) hsends hmsg fun input => by
    rw [dispatch_message]
    simp only [Handler.createKernel, hfield]
    rw [if_pos (by omega)]
    exact ⟨input, rfl⟩
  cases hstop

/-- An empty buffer is refused. -/
lemma createBuffer_framed {flags size : ℕ} {hostPtr : ℕ → UInt8}
    (h : (⟨.createBuffer flags size hostPtr, stack⟩ : Invocation).InStep rest) :
    (Call.createBuffer flags size hostPtr).Framed := by
  by_contra hsize
  change ¬ (copiesHostPtr flags ∨ size % 2 ^ 64 ≠ 0) at hsize
  obtain ⟨hcopies, hzero⟩ := not_or.1 hsize
  obtain ⟨tail, hsends, hmsg⟩ := Invocation.sends_fields ⟨.createBuffer flags size hostPtr, stack⟩
    zeroed .createBuffer [leBytes 8 flags, leBytes 8 size] [] (by simp [kMsgMaxSize])
    (fun msg hmsg => by
      rw [Call.sends, hmsg]
      exact if_neg hcopies)
  have hflags : field ([leBytes 8 flags, leBytes 8 size].flatten ++ tail) 0 8 = flags % 2 ^ 64 := by
    simp [field_leBytes]
  have hfield : field ([leBytes 8 flags, leBytes 8 size].flatten ++ tail) 8 8 = size % 2 ^ 64 := by
    simp [field_append, field_leBytes]
  have hstop := h.eq_exit (e := .abort) hsends hmsg fun input => by
    rw [dispatch_message]
    simp only [Handler.createBuffer, hflags, hfield, copiesHostPtr_mod]
    rw [if_neg hcopies]
    simp only [if_neg hzero]
    exact ⟨input, rfl⟩
  cases hstop

/-- `Run` has no case for the rigid bodies. -/
lemma not_inStep_of_unknown {call : Call} (fields payload : List (List UInt8))
    (hroom : 4 + fields.flatten.length ≤ kMsgMaxSize)
    (hsends : ∀ msg, message stack.sendBuf call.msgType fields = some msg →
      call.sends stack = some (msg :: payload))
    (hunknown : ∀ recvBuf, dispatch (leBytes 4 call.msgType.num ++ recvBuf) = Reader.stop .abort) :
    ¬ (⟨call, stack⟩ : Invocation).InStep rest := by
  intro h
  obtain ⟨tail, hsends, hmsg⟩ := Invocation.sends_fields ⟨call, stack⟩ stack.sendBuf call.msgType
    fields payload hroom hsends
  have hstop := h.eq_exit (e := .abort) hsends hmsg fun input => by
    rw [hunknown]
    exact ⟨input, rfl⟩
  cases hstop

lemma bullet3WriteToGPU_not_inStep (phase : Bullet3Phase) (d : Bullet3Data) :
    ¬ (⟨.bullet3WriteToGPU phase d, stack⟩ : Invocation).InStep rest := by
  cases phase with
  | np numOfBodies =>
      exact not_inStep_of_unknown
        [leBytes 8 d.totalDataSize, leBytes 8 d.numOfData, leBytes 8 numOfBodies]
        [bytesOf d.data d.totalDataSize, bytesOf d.dataSize (8 * d.numOfData)]
        (by simp [kMsgMaxSize]) (fun msg hmsg => Option.bind_eq_some_iff.2 ⟨msg, hmsg, rfl⟩)
        (dispatch_message .bullet3NPWriteToGPU)
  | rbp =>
      exact not_inStep_of_unknown [leBytes 8 d.totalDataSize, leBytes 8 d.numOfData]
        [bytesOf d.data d.totalDataSize, bytesOf d.dataSize (8 * d.numOfData)]
        (by simp [kMsgMaxSize]) (fun msg hmsg => Option.bind_eq_some_iff.2 ⟨msg, hmsg, rfl⟩)
        (dispatch_message .bullet3RBPWriteToGPU)
  | bp =>
      exact not_inStep_of_unknown [leBytes 8 d.totalDataSize, leBytes 8 d.numOfData]
        [bytesOf d.data d.totalDataSize, bytesOf d.dataSize (8 * d.numOfData)]
        (by simp [kMsgMaxSize]) (fun msg hmsg => Option.bind_eq_some_iff.2 ⟨msg, hmsg, rfl⟩)
        (dispatch_message .bullet3BPWriteToGPU)

/-- The counts of a range launch are those of the arguments it sends. -/
lemma enqueueNDRangeKernel_framed {kernelId : ℕ} {workSize : List (ℕ × ℕ)} {args : PendingArgs}
    (h : (⟨.enqueueNDRangeKernel kernelId workSize args, stack⟩ : Invocation).InStep rest) :
    (Call.enqueueNDRangeKernel kernelId workSize args).Framed := by
  -- A call that is in step overruns no buffer.
  obtain ⟨msg, mems, consts, hmsg, hmems, hconsts⟩ : ∃ msg mems consts,
      rangeMessage kernelId workSize args.toClKernel = some msg ∧
        sendMems stack.argSendBuf args.changedMemId = some mems ∧
        sendConsts stack.constSendBuf args.constDataInfo = some consts := by
    obtain ⟨sent, hsent, -⟩ := h
    rw [Invocation.sent, Option.map_eq_some_iff] at hsent
    obtain ⟨l, hl, -⟩ := hsent
    simp only [Call.sends, Option.bind_eq_bind, Option.bind_eq_some_iff] at hl
    obtain ⟨msg, hmsg, mems, hmems, consts, hconsts, -⟩ := hl
    exact ⟨msg, mems, consts, hmsg, hmems, hconsts⟩
  have hdim := length_of_rangeMessage hmsg
  have hk := length_of_sendConsts hconsts
  obtain ⟨sizes, tail, hsizes, htail, hmsg'⟩ := rangeMessage_eq kernelId args.toClKernel hdim
  obtain ⟨mems', hmems', hlengthMems, hcountMems, hdelivers⟩ :=
    sendMems_delivers stack.argSendBuf args.changedMemId fun x => x.2 ≠ nullMemId
  rw [hmems, Option.some.injEq] at hmems'
  subst hmems'
  obtain ⟨hcountConsts, hlengthConsts⟩ := length_sendEntries (fun _ => rfl) hconsts
  have hlengthConsts' : ∀ msg ∈ consts, msg.length = kMsgMaxSize := fun msg hmem =>
    (hlengthConsts msg hmem).trans stack.constSendBuf.2
  have hlength := length_rangeMsg kernelId args.changedMemId.length args.constDataInfo.length
    args.constData.length hsizes htail
  have hsends := sends_range hmsg' hmems hconsts
  have hpayload := transmit_rangePayload args.constData hlengthMems hlengthConsts'
  -- The handler takes as many bytes as the counts ask for, so no count was cut.
  have htakes := h.takes hsends hlength (by rw [hpayload]) (by
    rw [dispatch_message]
    exact enqueueNDRangeKernel_takes _ _ _ _ tail hsizes)
  rw [hpayload] at htakes
  simp only [List.length_append] at htakes
  rw [List.length_take_of_le (Nat.mod_le _ _), length_flatten_msgs hlengthMems, hcountMems,
    length_flatten_msgs hlengthConsts', hcountConsts] at htakes
  simp only [kMsgMaxSize] at htakes
  have hm : args.changedMemId.length < 2 ^ 8 := by omega
  have hd : args.constData.length % 2 ^ 32 < 2 ^ 8 := by omega
  refine ⟨hdim, hm, ?_, hk, hd⟩
  -- An entry that fails the handler's assertion stops it.
  by_contra hnull
  have hall : (args.changedMemId.map (narrow 4)).all (fun x => x.2 ≠ nullMemId) = false := by
    rw [Bool.eq_false_iff, List.all_map, ne_eq, List.all_eq_true]
    intro hall
    exact hnull fun x hx => of_decide_eq_true (hall x hx)
  rw [Delivers, hall, if_neg Bool.false_ne_true] at hdelivers
  obtain ⟨input, more, hflatten, hinput⟩ := hdelivers
  have hstop := enqueueNDRangeKernel_refuses kernelId args.constDataInfo.length
    args.constData.length tail hsizes hm hinput
  have hstep := h.dispatch hsends hlength
  rw [hpayload, if_neg Bool.false_ne_true, dispatch_message, hflatten] at hstep
  obtain ⟨r, hok⟩ := hstep
  simp only [List.append_assoc] at hok
  cases (hstop _).symm.trans hok

end Converse

/-- A call that is in step is framed. -/
theorem Invocation.InStep.framed {c : Invocation} {rest : List UInt8} (h : c.InStep rest) :
    c.call.Framed := by
  obtain ⟨call, stack⟩ := c
  cases call with
  | createProgramWithSource id sources => exact createProgramWithSource_framed h
  | buildProgram programId options => exact buildProgram_framed h
  | createKernel programId kernelName => exact createKernel_framed h
  | createBuffer flags size hostPtr => exact createBuffer_framed h
  | enqueueNDRangeKernel kernelId workSize args => exact enqueueNDRangeKernel_framed h
  | bullet3ReadResultBack dataSize =>
      have hnot : ¬ (⟨.bullet3ReadResultBack dataSize, stack⟩ : Invocation).InStep rest :=
        not_inStep_of_unknown [] [] (by simp [kMsgMaxSize])
          (fun msg hmsg => Option.bind_eq_some_iff.2 ⟨msg, hmsg, rfl⟩)
          (dispatch_message .bullet3ReadResultBack)
      exact hnot h
  | bullet3WriteToGPU phase data => exact bullet3WriteToGPU_not_inStep phase data h
  | _ => trivial

/-! ## Sequences of calls -/

/-- What a client that makes the calls puts on the main socket: nothing after it has exited. -/
def stream : List Invocation → List UInt8
  | [] => []
  | c :: cs =>
    match c.sent with
    | none => []
    | some sent => if sent.exited then sent.bytes else sent.bytes ++ stream cs

/-- The calls the client gets to make. -/
def made : List Invocation → List Invocation
  | [] => []
  | c :: cs =>
    match c.sent with
    | none => [c]
    | some sent => if sent.exited then [c] else c :: made cs

/-- `Run` is in step with the calls, one round for each. -/
def InStep : List Invocation → Prop
  | [] => True
  | c :: cs => c.InStep (stream cs) ∧
    ∀ sent, c.sent = some sent → sent.exited = false → InStep cs

/-- The calls made are the first, and those after it unless it ends the client. -/
lemma made_cons_forall (c : Invocation) (cs : List Invocation) {p : Invocation → Prop} :
    (∀ d ∈ made (c :: cs), p d) ↔
      p c ∧ ∀ sent, c.sent = some sent → sent.exited = false → ∀ d ∈ made cs, p d := by
  rw [made]
  cases hsent : c.sent with
  | none => simp
  | some sent => cases hexited : sent.exited <;> simp [hexited]

/-- The node stays in step with the client exactly as long as the calls made are framed. -/
theorem in_step_iff (cs : List Invocation) : InStep cs ↔ ∀ c ∈ made cs, c.call.Framed := by
  induction cs with
  | nil => simp [InStep, made]
  | cons c cs ih =>
      rw [InStep, made_cons_forall, ih]
      constructor
      · intro h
        exact ⟨h.1.framed, h.2⟩
      · intro h
        exact ⟨h.1.read.inStep (stream cs), h.2⟩

/-- The options `-w`. -/
def noWarnings : CString where
  mem i := if i = 0 then 45 else if i = 1 then 119 else 0
  strlen := 2
  terminated := rfl
  nonzero := by decide

/-- A stack of zeroes. -/
def clearStack : Stack := ⟨zeroed, zeroed, zeroed⟩

/-- The options of the build are taken for the first bytes of the next message. -/
theorem unread_options :
    ¬ InStep [⟨.buildProgram 1 (some noWarnings), clearStack⟩, ⟨.finish, clearStack⟩] := by
  intro h
  have hframed := buildProgram_framed h.1
  exact absurd hframed (by decide : ¬ 2 % 2 ^ 32 = 0)

/-! ## The rounds of `Run` -/

/-- The kinds of the requests in the first `n` rounds of `Run`, and the bytes they leave. -/
def rounds : ℕ → List UInt8 → List MsgType × List UInt8
  | 0, l => ([], l)
  | n + 1, l =>
    match nextRequest l with
    | (.ok r, l) => (r.msgType :: (rounds n l).1, (rounds n l).2)
    | (.error _, l) => ([], l)

/-- A client that does not exit has its calls decoded one after the other, to the last byte. -/
theorem InStep.rounds_eq {cs : List Invocation} (h : InStep cs)
    (hexited : ∀ c ∈ cs, ∀ sent, c.sent = some sent → sent.exited = false) :
    rounds cs.length (stream cs) = (cs.map fun c => c.call.msgType, []) := by
  induction cs with
  | nil => rfl
  | cons c cs ih =>
      obtain ⟨⟨sent, hsent, hstep⟩, hrest⟩ := h
      have hnot := hexited c (List.mem_cons_self ..) sent hsent
      rw [hnot, if_neg Bool.false_ne_true] at hstep
      obtain ⟨r, htype, hok⟩ := hstep
      have hstream : stream (c :: cs) = sent.bytes ++ stream cs := by
        rw [stream, hsent]
        simp only [hnot, Bool.false_eq_true, if_false]
      have hcs := ih (hrest sent hsent hnot) fun d hd => hexited d (List.mem_cons_of_mem _ hd)
      rw [List.length_cons, rounds, hstream, hok]
      simp only [hcs, htype, List.map_cons]

end ElasticFramework
