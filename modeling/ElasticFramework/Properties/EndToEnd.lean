import ElasticFramework.Construction.MainSockets
import ElasticFramework.Properties.Framing
import ElasticFramework.Properties.LaunchGeometry
import ElasticFramework.Properties.Transparency

/-!
# From a client's calls to its bytes

`Call.request` says what a call asks of the node; its numbers are as wide as the fields they travel
in.  A framed call is read off the socket as that (`Invocation.round`), whatever the client's stack
has put into the rest of its messages, so that the requests a session has handled are those of the
first of its calls and the bytes on its socket those of the others (`socket_of_exec`).

With `transparent` this makes one statement of the whole way: a client gets what its calls ask for
(`end_to_end`), and nothing else has a part in it (`same_calls`).
-/

namespace ElasticFramework

open Reader

/-! ## What a call asks for -/

/-- The request of a call. -/
def Call.request : Call → Option Request
  | .register clientWeight => some (.register (clientWeight % 2 ^ 64))
  | .createProgramWithSource _ s => some (.createProgramWithSource
      (s.strings.map fun x => s.sendLength x.2 % 2 ^ 64)
      (s.strings.map fun x => bytesOf x.1 (s.sendLength x.2 % 2 ^ 32)))
  | .buildProgram programId _ => some (.buildProgram (programId % 2 ^ 32))
  | .createKernel programId name =>
    some (.createKernel (programId % 2 ^ 32) (bytesOf name.mem (name.strlen % 2 ^ 32)))
  | .enqueueTask kernelId => some (.enqueueTask (handlerEnqueueTask (kernelId % 2 ^ 32)))
  | .createBuffer flags size hostPtr => some (.createBuffer (flags % 2 ^ 64) (size % 2 ^ 64)
      (if copiesHostPtr flags then some (bytesOf hostPtr (size % 2 ^ 32)) else none))
  | .enqueueReadBuffer memId offset cb blockingRead =>
    some (.enqueueReadBuffer (memId % 2 ^ 32) (offset % 2 ^ 64) (cb % 2 ^ 64) blockingRead.toNat)
  | .enqueueWriteBuffer memId offset cb blockingWrite ptr =>
    some (.enqueueWriteBuffer (memId % 2 ^ 32) (offset % 2 ^ 64) (cb % 2 ^ 64) blockingWrite.toNat
      (bytesOf ptr (cb % 2 ^ 32)))
  | .finish => some (.finish 0)
  | .enqueueNDRangeKernel kernelId workSize args =>
    (handlerEnqueueNDRangeKernel (kernelId % 2 ^ 32) (args.changedMemId.map (narrow 4))
      (receivedConsts args.constDataInfo)
      (args.constData.take (args.constData.length % 2 ^ 32))).map fun comm =>
        .enqueueNDRangeKernel comm (workSize.map fun x => x.1 % 2 ^ 64)
          (workSize.map fun x => x.2 % 2 ^ 64)
  | .enqueueCopyBuffer srcId dstId srcOffset dstOffset cb =>
    some (.enqueueCopyBuffer (srcId % 2 ^ 32) (dstId % 2 ^ 32) (srcOffset % 2 ^ 64)
      (dstOffset % 2 ^ 64) (cb % 2 ^ 64))
  | .releaseMemObject memId => some (.releaseMemObject (memId % 2 ^ 32))
  | .bullet3ReadResultBack _ | .bullet3WriteToGPU _ _ => none

/-- The sizes in a range message. -/
lemma rangeMessage_sizes {kernelId : ℕ} {workSize : List (ℕ × ℕ)} {args : ClKernel}
    {msg : List UInt8} (h : rangeMessage kernelId workSize args = some msg) :
    (handlerRangeCommand (msg.drop 4)).globalWorkSize = workSize.map (fun x => x.1 % 2 ^ 64) ∧
      (handlerRangeCommand (msg.drop 4)).localWorkSize = workSize.map fun x => x.2 % 2 ^ 64 := by
  have hdim := length_of_rangeMessage h
  obtain ⟨gap, gap', tail, hgap, -, -, hmsg⟩ := rangeMessage_fields kernelId args hdim
  rw [h, Option.some.injEq] at hmsg
  obtain ⟨-, hworkDim, hglobals, hlocals⟩ := @field_sizes kernelId workSize.length
    (workSize.map Prod.fst) (workSize.map Prod.snd) gap gap'
    (leBytes 1 args.changedMemId.length ++ (leBytes 1 args.constDataInfo.length ++
      (leBytes 4 args.constData.length ++ tail)))
    hdim (List.length_map ..) (List.length_map ..) hgap
  have hlt : workSize.length % 2 ^ 8 = workSize.length := Nat.mod_eq_of_lt (by omega)
  rw [sizesBuf, List.map_map, List.map_map] at hworkDim hglobals hlocals
  rw [hlt] at hworkDim
  rw [hmsg, List.drop_left' (length_leBytes 4 _), handlerRangeCommand, RangeCommand.new]
  simp only [Function.comp_def] at hworkDim hglobals hlocals
  rw [hworkDim, hglobals, hlocals, List.map_map, List.map_map]
  exact ⟨rfl, rfl⟩

/-- A range launch is decoded with its sizes. -/
lemma sizes_of_nextRequest {c : Invocation} {sent : Sent} {rest l : List UInt8} {kernelId : ℕ}
    {workSize : List (ℕ × ℕ)} {args : PendingArgs} {comm : CommandKernel}
    {globalWorkSize localWorkSize : List ℕ}
    (hcall : c.call = .enqueueNDRangeKernel kernelId workSize args) (hsent : c.sent = some sent)
    (h : nextRequest (sent.bytes ++ rest) =
      (.ok (.enqueueNDRangeKernel comm globalWorkSize localWorkSize), l)) :
    globalWorkSize = workSize.map (fun x => x.1 % 2 ^ 64) ∧
      localWorkSize = workSize.map fun x => x.2 % 2 ^ 64 := by
  rw [Invocation.sent, hcall, Option.map_eq_some_iff] at hsent
  obtain ⟨sends, hsends, rfl⟩ := hsent
  simp only [Call.sends, Option.bind_eq_bind, Option.bind_eq_some_iff] at hsends
  obtain ⟨msg, hmsg, mems, -, consts, -, hsends⟩ := hsends
  cases hsends
  have hdim := length_of_rangeMessage hmsg
  obtain ⟨sizes, tail, hsizes, htail, hmsg'⟩ := rangeMessage_eq kernelId args.toClKernel hdim
  have hlength : msg.length = kMsgMaxSize := by
    rw [hmsg, Option.some.injEq] at hmsg'
    rw [hmsg']
    exact length_rangeMsg _ _ _ _ hsizes htail
  have hdispatch : dispatch msg = Handler.enqueueNDRangeKernel (msg.drop 4) := by
    rw [hmsg, Option.some.injEq] at hmsg'
    rw [hmsg', dispatch_message, List.drop_left' (length_leBytes 4 _)]
  rw [List.cons_append, List.cons_append, transmit_message hlength, List.append_assoc,
    nextRequest_message hlength, hdispatch] at h
  obtain ⟨-, hglobal, hlocal⟩ := enqueueNDRangeKernel_geometry h
  obtain ⟨hglobals, hlocals⟩ := rangeMessage_sizes hmsg
  exact ⟨hglobal.trans hglobals, hlocal.trans hlocals⟩

/-- A round of `Run` reads a framed call as what it asks for, and nothing of the calls after it. -/
lemma Invocation.round {c : Invocation} {sent : Sent} (hframed : c.call.Framed)
    (hsent : c.sent = some sent) (hexited : sent.exited = false) (rest : List UInt8) :
    ∃ r, c.call.request = some r ∧ nextRequest (sent.bytes ++ rest) = (.ok r, rest) := by
  obtain ⟨sent', r, hsent', hdecodes, hyields⟩ := hframed.read
  rw [hsent, Option.some.injEq] at hsent'
  subst hsent'
  have hnext := hyields rest
  rw [hexited] at hnext
  refine ⟨r, ?_, hnext⟩
  obtain ⟨call, stack⟩ := c
  cases hdecodes with
  | enqueueNDRangeKernel kernelId workSize args comm globalWorkSize localWorkSize hcomm =>
      obtain ⟨rfl, rfl⟩ := sizes_of_nextRequest rfl hsent hnext
      rw [Call.request, hcomm, Option.map_some]
  | _ => rfl

/-! ## The socket of a session -/

variable {K W T : Type*} [Arith K] [DecidableEq W] [DecidableEq T] {cl : OpenCL W} {G : Growth}
  {kernels : Kernels W} {dev : W} {objects : cl.Context → CLObjects}
  {s s' : Connected K T cl} {ls : List (ConnectedStep K W T)}

/-- The moves of the node with its memory that a step comes to. -/
def Connected.memorySteps (s : Connected K T cl) :
    ConnectedStep K W T → List (MemoryStep K W T)
  | .call _ _ => []
  | .round t uninitialized =>
    match nextRequest (s.sent t) with
    | (.ok r, _) => [.handle t ⟨r, uninitialized⟩]
    | (.error _, _) => []
  | .node m => [m]

/-- The run of the node with its memory in a run with its clients. -/
def memoryRun (cl : OpenCL W) (G : Growth) (ls : List (ConnectedStep K W T)) :
    List (MemoryStep K W T) :=
  (connected cl G).trace Connected.memorySteps (Connected.init cl) ls

lemma memoryRun_snoc (h : (connected cl G).exec (Connected.init cl) ls = some s)
    (l : ConnectedStep K W T) : memoryRun cl G (ls ++ [l]) = memoryRun cl G ls ++ s.memorySteps l :=
  (connected cl G).trace_snoc _ l h

/-- What a step does. -/
inductive Connects (cl : OpenCL W) (G : Growth) (s : Connected K T cl) :
    ConnectedStep K W T → Connected K T cl → Prop
  | call (t : T) {c : Invocation} {sent : Sent} (hsent : c.sent = some sent)
      (hexited : sent.exited = false) :
    Connects cl G s (.call t c)
      { s with sent := Function.update s.sent t (s.sent t ++ sent.bytes) }
  | round {t : T} {uninitialized rest : List UInt8} {r : Request} {node : NodeMemory K T cl}
      (hnext : nextRequest (s.sent t) = (.ok r, rest))
      (hnode : (nodeMemory cl G).step s.node (.handle t ⟨r, uninitialized⟩) = some node) :
    Connects cl G s (.round t uninitialized) ⟨node, Function.update s.sent t rest⟩
  | node {m : MemoryStep K W T} {node : NodeMemory K T cl} (hm : m.fromSocket = false)
      (hnode : (nodeMemory cl G).step s.node m = some node) :
    Connects cl G s (.node m) { s with node := node }

lemma connects_of_step {l : ConnectedStep K W T} (h : (connected cl G).step s l = some s') :
    Connects cl G s l s' := by
  cases l with
  | call t c =>
      obtain ⟨sent, hsent, h⟩ := Option.bind_eq_some_iff.1 h
      split at h
      · cases h
      · rename_i hexited
        cases h
        exact .call t hsent (Bool.eq_false_iff.2 hexited)
  | round t uninitialized =>
      change s.round G t uninitialized = some s' at h
      rw [Connected.round] at h
      split at h
      · rename_i hnext
        obtain ⟨node, hnode, rfl⟩ := Option.map_eq_some_iff.1 h
        exact .round hnext hnode
      · cases h
  | node m =>
      change (if m.fromSocket then none else _) = some s' at h
      split at h
      · cases h
      · rename_i hm
        obtain ⟨node, hnode, rfl⟩ := Option.map_eq_some_iff.1 h
        exact .node (Bool.eq_false_iff.2 hm) hnode

/-- What the clients ask for is a run of the node with its memory. -/
lemma exec_memoryRun (h : (connected cl G).exec (Connected.init cl) ls = some s) :
    (nodeMemory cl G).exec (NodeMemory.init cl) (memoryRun cl G ls) = some s.node := by
  refine (connected cl G).exec_induction (P := fun ls s =>
    (nodeMemory cl G).exec (NodeMemory.init cl) (memoryRun cl G ls) = some s.node) rfl ?_ h
  intro ls s l s' hs ih hl
  rw [memoryRun_snoc hs]
  cases connects_of_step hl with
  | call t hsent hexited => rwa [Connected.memorySteps, List.append_nil]
  | round hnext hnode =>
      rw [Connected.memorySteps, hnext]
      exact (nodeMemory cl G).exec_snoc_iff.2 ⟨s.node, ih, hnode⟩
  | node hm hnode => exact (nodeMemory cl G).exec_snoc_iff.2 ⟨s.node, ih, hnode⟩

omit [Arith K] [DecidableEq W] in
lemma callsOf_snoc (t : T) (ls : List (ConnectedStep K W T)) (l : ConnectedStep K W T) :
    callsOf t (ls ++ [l]) = callsOf t ls ++ callsOf t [l] := by
  rw [callsOf, List.filterMap_append, callsOf, callsOf]

omit [Arith K] [DecidableEq W] in
lemma newBuffers_snoc (t : T) (ls : List (ConnectedStep K W T)) (l : ConnectedStep K W T) :
    newBuffers t (ls ++ [l]) = newBuffers t ls ++ newBuffers t [l] := by
  rw [newBuffers, List.filterMap_append, newBuffers, newBuffers]

/-- The calls of a session: a node that has handled some, and others on the socket. -/
structure Socket (cl : OpenCL W) (G : Growth) (t : T) (ls : List (ConnectedStep K W T))
    (s : Connected K T cl) (handled : List Call) (waiting : List Invocation) : Prop where
  calls : callsOf t ls = handled ++ waiting.map Invocation.call
  sent : s.sent t = (waiting.map Invocation.bytes).flatten
  alive : ∀ c ∈ waiting, ∃ sent, c.sent = some sent ∧ sent.exited = false
  asked : (askedBy t (memoryRun cl G ls)).map (fun a => some a.request) = handled.map Call.request
  found : (askedBy t (memoryRun cl G ls)).map Asked.uninitialized = newBuffers t ls

namespace Socket

variable {t : T} {handled : List Call} {waiting : List Invocation}

lemma of_init : Socket cl G t ([] : List (ConnectedStep K W T)) (Connected.init cl) [] [] :=
  ⟨rfl, rfl, nofun, rfl, rfl⟩

/-- A step of no concern to the session. -/
lemma frame (h : Socket cl G t ls s handled waiting)
    (hs : (connected cl G).exec (Connected.init cl) ls = some s) {l : ConnectedStep K W T}
    (hsent : s'.sent t = s.sent t) (hcalls : callsOf t [l] = []) (hfound : newBuffers t [l] = [])
    (hasked : askedBy t (s.memorySteps l) = []) :
    Socket cl G t (ls ++ [l]) s' handled waiting where
  calls := by rw [callsOf_snoc, hcalls, List.append_nil, h.calls]
  sent := hsent.trans h.sent
  alive := h.alive
  asked := by rw [memoryRun_snoc hs, askedBy_append, hasked, List.append_nil, h.asked]
  found := by
    rw [memoryRun_snoc hs, askedBy_append, hasked, List.append_nil, h.found, newBuffers_snoc,
      hfound, List.append_nil]

/-- The client makes a call. -/
lemma call (h : Socket cl G t ls s handled waiting)
    (hs : (connected cl G).exec (Connected.init cl) ls = some s) {c : Invocation} {sent : Sent}
    (hsent : c.sent = some sent) (hexited : sent.exited = false)
    (hs' : s'.sent t = s.sent t ++ sent.bytes) :
    Socket cl G t (ls ++ [.call t c]) s' handled (waiting ++ [c]) where
  calls := by
    rw [callsOf_snoc, h.calls, List.map_append, List.append_assoc]
    simp [callsOf]
  sent := by
    rw [hs', h.sent, List.map_append, List.flatten_append]
    simp [Invocation.bytes, hsent]
  alive := by
    intro d hd
    rcases List.mem_append.1 hd with hd | hd
    · exact h.alive d hd
    · obtain rfl := List.mem_singleton.1 hd
      exact ⟨sent, hsent, hexited⟩
  asked := by rw [memoryRun_snoc hs, Connected.memorySteps, List.append_nil, h.asked]
  found := by
    rw [memoryRun_snoc hs, Connected.memorySteps, List.append_nil, h.found, newBuffers_snoc]
    simp [newBuffers]

/-- `Run` reads a call. -/
lemma read {c : Invocation} (h : Socket cl G t ls s handled (c :: waiting))
    (hs : (connected cl G).exec (Connected.init cl) ls = some s) (hframed : c.call.Framed) :
    ∃ r, nextRequest (s.sent t) = (.ok r, (waiting.map Invocation.bytes).flatten) ∧
      ∀ s' uninitialized, s'.sent t = (waiting.map Invocation.bytes).flatten →
        Socket cl G t (ls ++ [.round t uninitialized]) s' (handled ++ [c.call]) waiting := by
  obtain ⟨sent, hsent, hexited⟩ := h.alive c (List.mem_cons_self ..)
  obtain ⟨r, hrequest, hnext⟩ :=
    Invocation.round hframed hsent hexited (waiting.map Invocation.bytes).flatten
  have hbytes : s.sent t = sent.bytes ++ (waiting.map Invocation.bytes).flatten := by
    rw [h.sent, List.map_cons, List.flatten_cons, Invocation.bytes, hsent, Option.map_some,
      Option.getD_some]
  rw [← hbytes] at hnext
  refine ⟨r, hnext, fun s' uninitialized hs' => ?_⟩
  have hasked : askedBy t (s.memorySteps (.round t uninitialized)) = [⟨r, uninitialized⟩] := by
    rw [Connected.memorySteps, hnext]
    simp [askedBy]
  constructor
  · rw [callsOf_snoc, h.calls, List.map_cons]
    simp [callsOf]
  · exact hs'
  · exact fun d hd => h.alive d (List.mem_cons_of_mem _ hd)
  · rw [memoryRun_snoc hs, askedBy_append, hasked, List.map_append, h.asked, List.map_append]
    simp [hrequest]
  · rw [memoryRun_snoc hs, askedBy_append, hasked, List.map_append, h.found, newBuffers_snoc]
    simp [newBuffers]

end Socket

/-- The calls of a client that makes framed ones are handled in the order they are made, and those
that are not are on its socket. -/
theorem socket_of_exec (h : (connected cl G).exec (Connected.init cl) ls = some s) (t : T)
    (hframed : ∀ c ∈ callsOf t ls, c.Framed) :
    ∃ handled waiting, Socket cl G t ls s handled waiting := by
  refine (connected cl G).exec_induction (P := fun ls s => (∀ c ∈ callsOf t ls, c.Framed) →
    ∃ handled waiting, Socket cl G t ls s handled waiting)
    (fun _ => ⟨[], [], .of_init⟩) ?_ h hframed
  intro ls s l s' hs ih hl hframed
  rw [callsOf_snoc] at hframed
  obtain ⟨handled, waiting, hsocket⟩ := ih fun c hc => hframed c (List.mem_append_left _ hc)
  cases connects_of_step hl with
  | @call t' c sent hsent hexited =>
      by_cases ht : t' = t
      · subst ht
        exact ⟨_, _, hsocket.call hs hsent hexited (Function.update_self ..)⟩
      · refine ⟨_, _, hsocket.frame hs (Function.update_of_ne (Ne.symm ht) ..) ?_ rfl rfl⟩
        simp [callsOf, ht]
  | @round t' uninitialized rest r node hnext hnode =>
      by_cases ht : t' = t
      · subst ht
        cases waiting with
        | nil =>
            rw [hsocket.sent] at hnext
            cases hnext
        | cons c waiting =>
            have hc : c.call ∈ callsOf t' ls := by
              rw [hsocket.calls]
              simp
            obtain ⟨r', hnext', hread⟩ := hsocket.read hs (hframed _ (List.mem_append_left _ hc))
            rw [hnext] at hnext'
            cases hnext'
            exact ⟨_, _, hread _ _ (Function.update_self ..)⟩
      · refine ⟨_, _, hsocket.frame hs (Function.update_of_ne (Ne.symm ht) ..) rfl ?_ ?_⟩
        · simp [newBuffers, ht]
        · rw [Connected.memorySteps, hnext]
          simp [askedBy, ht]
  | @node m node hm hnode =>
      refine ⟨_, _, hsocket.frame hs rfl rfl rfl ?_⟩
      cases m with
      | handle t' a => cases hm
      | execute w usedTime => rfl
      | other l => rfl

/-! ## What a client gets -/

/-- What the reads of a session have found, as the node with its memory has it. -/
lemma readBack_eq (h : (connected cl G).exec (Connected.init cl) ls = some s) (t : T) :
    readBack cl G t ls = readBy cl G t (memoryRun cl G ls) := by
  refine (connected cl G).exec_induction (P := fun ls _ =>
    readBack cl G t ls = readBy cl G t (memoryRun cl G ls)) rfl ?_ h
  intro ls s l s' hs ih hl
  have hsnoc : readBack cl G t (ls ++ [l]) = readBack cl G t ls ++ s.readsFor t l :=
    (connected cl G).trace_snoc _ l hs
  rw [hsnoc, memoryRun_snoc hs, ih]
  cases connects_of_step hl with
  | call t' hsent hexited =>
      rw [Connected.memorySteps, List.append_nil]
      exact List.append_nil _
  | round hnext hnode =>
      rw [Connected.memorySteps, hnext, readBy_snoc (exec_memoryRun hs)]
      rfl
  | node hm hnode =>
      rw [Connected.memorySteps, readBy_snoc (exec_memoryRun hs)]
      rfl

/-- The requests of calls, in each what is found in a buffer that it creates. -/
structure Asks (calls : List Call) (found : List (List UInt8)) (asked : List Asked) : Prop where
  requests : asked.map (fun a => some a.request) = calls.map Call.request
  found : asked.map Asked.uninitialized = found

lemma Asks.unique {calls : List Call} {found : List (List UInt8)} {asked asked' : List Asked}
    (h : Asks calls found asked) (h' : Asks calls found asked') : asked = asked' := by
  have hinjective : Function.Injective fun a : Asked => (some a.request, a.uninitialized) := by
    rintro ⟨r, u⟩ ⟨r', u'⟩ heq
    cases heq
    rfl
  refine List.map_injective_iff.2 hinjective ?_
  rw [← List.zip_map', ← List.zip_map', h.requests, h.found, h'.requests, h'.found]

/-- What a client is to get: its calls are carried out by themselves, one after the other, which
leads to `r` and has read `reads`. -/
def Gets (kernels : Kernels W) (dev : W) (calls : List Call) (found : List (List UInt8))
    (r : SessionObjects) (reads : List (List UInt8)) : Prop :=
  ∃ asked, Asks calls found asked ∧ (immediate kernels dev).exec .init asked = some r ∧
    reads = (immediate kernels dev).trace SessionObjects.reads .init asked

omit [Arith K] [DecidableEq W] [DecidableEq T] in
lemma Gets.unique {calls : List Call} {found : List (List UInt8)} {r r' : SessionObjects}
    {reads reads' : List (List UInt8)} (h : Gets kernels dev calls found r reads)
    (h' : Gets kernels dev calls found r' reads') : r = r' ∧ reads = reads' := by
  obtain ⟨asked, hasks, hexec, rfl⟩ := h
  obtain ⟨asked', hasks', hexec', rfl⟩ := h'
  obtain rfl := hasks.unique hasks'
  rw [hexec, Option.some.injEq] at hexec'
  exact ⟨hexec', rfl⟩

/-- A drained socket has no calls left. -/
lemma socket_of_drained (h : (connected cl G).exec (Connected.init cl) ls = some s) {t : T}
    (hframed : ∀ c ∈ callsOf t ls, c.Framed) (hsent : s.sent t = []) :
    Socket cl G t ls s (callsOf t ls) [] := by
  obtain ⟨handled, waiting, hsocket⟩ := socket_of_exec h t hframed
  cases waiting with
  | nil =>
      have hcalls : callsOf t ls = handled := by
        rw [hsocket.calls, List.map_nil, List.append_nil]
      rwa [hcalls]
  | cons c waiting =>
      have hc : c.call ∈ callsOf t ls := by
        rw [hsocket.calls]
        simp
      obtain ⟨r, hnext, -⟩ := hsocket.read h (hframed _ hc)
      rw [hsent] at hnext
      cases hnext

/-- With its queue empty, a client whose calls have all been read has got what they ask for. -/
lemma Socket.gets {t : T} {calls : List Call} (hsocket : Socket cl G t ls s calls [])
    (hdoc : cl.Documented kernels objects)
    (h : (connected cl G).exec (Connected.init cl) ls = some s)
    (hbound : BoundTo dev (memoryRun cl G ls)) (hvalid : Valid kernels dev (memoryRun cl G ls))
    {q : ℕ} (hq : (s.node.base.session t).queue = some q)
    (hempty : (s.node.base.node.que q).queue = []) :
    ∃ r, Gets kernels dev calls (newBuffers t ls) r (readBack cl G t ls) ∧
      s.node.Shows objects t r := by
  have hmemory := exec_memoryRun h
  have howed := owedOn_eq_nil (exec_threads hmemory) hempty
  obtain ⟨r, halone⟩ := alone_of_owed hdoc hmemory hbound hvalid ((owedTo_eq hq).trans howed)
  refine ⟨r, ⟨askedBy t (memoryRun cl G ls), ⟨hsocket.asked, hsocket.found⟩, halone.exec, ?_⟩,
    halone.shows⟩
  rw [readBack_eq h, halone.reads]

/-- A client makes a buffer, writes to it and reads what is there. -/
def clientCalls : List Call :=
  [.createBuffer 32 2 fun _ => 9, .enqueueWriteBuffer 0 1 1 0 fun _ => 7,
    .enqueueReadBuffer 0 0 2 0]

/-- The node takes the client's calls as they come. -/
def clientSession (t : Bool) (stack : Stack) : List (ConnectedStep Ticks Unit Bool) :=
  [.node (.other (.connect t 1)), .node (.other (.createQueue t)),
    .node (.other (.bindDev t ()))] ++
      clientCalls.flatMap fun c => [.call t ⟨c, stack⟩, .round t []]

/-- The worker has two commands to execute. -/
def twoTurns : List (ConnectedStep Ticks Unit Bool) := (workerTurn ++ workerTurn).map .node

lemma clientCalls_framed : ∀ c ∈ clientCalls, c.Framed := by decide

/-- **Nothing else has a part in it.**  Two clients that make the same framed calls, in whatever
runs and whatever is on their stacks, have got the same, if they have found the same in their new
buffers. -/
theorem same_calls (hdoc : cl.Documented kernels objects) {s₁ s₂ : Connected K T cl}
    {ls₁ ls₂ : List (ConnectedStep K W T)} {t₁ t₂ : T} {p q : ℕ}
    (h₁ : (connected cl G).exec (Connected.init cl) ls₁ = some s₁)
    (hbound₁ : BoundTo dev (memoryRun cl G ls₁)) (hvalid₁ : Valid kernels dev (memoryRun cl G ls₁))
    (h₂ : (connected cl G).exec (Connected.init cl) ls₂ = some s₂)
    (hbound₂ : BoundTo dev (memoryRun cl G ls₂)) (hvalid₂ : Valid kernels dev (memoryRun cl G ls₂))
    (hcalls : callsOf t₁ ls₁ = callsOf t₂ ls₂) (hfound : newBuffers t₁ ls₁ = newBuffers t₂ ls₂)
    (hframed : ∀ c ∈ callsOf t₁ ls₁, c.Framed)
    (hsent₁ : s₁.sent t₁ = []) (hp : (s₁.node.base.session t₁).queue = some p)
    (hempty₁ : (s₁.node.base.node.que p).queue = [])
    (hsent₂ : s₂.sent t₂ = []) (hq : (s₂.node.base.session t₂).queue = some q)
    (hempty₂ : (s₂.node.base.node.que q).queue = []) :
    readBack cl G t₁ ls₁ = readBack cl G t₂ ls₂ ∧
      ∃ r, s₁.node.Shows objects t₁ r ∧ s₂.node.Shows objects t₂ r := by
  obtain ⟨r₁, hgets₁, hshows₁⟩ :=
    (socket_of_drained h₁ hframed hsent₁).gets hdoc h₁ hbound₁ hvalid₁ hp hempty₁
  rw [hcalls] at hframed
  obtain ⟨r₂, hgets₂, hshows₂⟩ :=
    (socket_of_drained h₂ hframed hsent₂).gets hdoc h₂ hbound₂ hvalid₂ hq hempty₂
  rw [hcalls, hfound] at hgets₁
  obtain ⟨rfl, hreads⟩ := hgets₁.unique hgets₂
  exact ⟨hreads, r₁, hshows₁, hshows₂⟩

/-- A stack of ones. -/
def usedStack : Stack :=
  let buf : MsgBuf := ⟨List.replicate kMsgMaxSize 1, List.length_replicate⟩
  ⟨buf, buf, buf⟩

/-- Two clients that make the same calls on different stacks. -/
def twoClientSessions : List (ConnectedStep Ticks Unit Bool) :=
  clientSession true clearStack ++ clientSession false usedStack ++ twoTurns ++ twoTurns

/-- The second of two clients, and one that is alone. -/
theorem same_calls_stacks : ∃ s₁ s₂ r,
    (connected oneDeviceCL .double).exec (Connected.init _) twoClientSessions = some s₁ ∧
    (connected oneDeviceCL .double).exec (Connected.init _)
      (clientSession true clearStack ++ twoTurns) = some s₂ ∧
    readBack oneDeviceCL .double false twoClientSessions = [[9, 7]] ∧
    readBack oneDeviceCL .double true (clientSession true clearStack ++ twoTurns) = [[9, 7]] ∧
    s₁.node.Shows Prod.snd false r ∧ s₂.node.Shows Prod.snd true r := by
  have h₁ : (connected oneDeviceCL .double).exec (Connected.init _) twoClientSessions =
      some _ := rfl
  have h₂ : (connected oneDeviceCL .double).exec (Connected.init _)
      (clientSession true clearStack ++ twoTurns) = some _ := rfl
  have hvalid₁ : Valid noKernels () (memoryRun oneDeviceCL .double twoClientSessions) := by
    rintro (_ | _) <;> rfl
  have hvalid₂ : Valid noKernels ()
      (memoryRun oneDeviceCL .double (clientSession true clearStack ++ twoTurns)) := by
    rintro (_ | _) <;> rfl
  obtain ⟨hreads, r, hshows₁, hshows₂⟩ := same_calls (plainCL_documented ..) h₁ (boundTo_unit _)
    hvalid₁ h₂ (boundTo_unit _) hvalid₂ (rfl : callsOf false _ = callsOf true _) rfl
    clientCalls_framed rfl (p := 1) rfl rfl rfl (q := 0) rfl rfl
  have hread : readBack oneDeviceCL .double true (clientSession true clearStack ++ twoTurns) =
      [[9, 7]] := rfl
  exact ⟨_, _, r, h₁, h₂, hreads.trans hread, hread, hshows₁, hshows₂⟩

end ElasticFramework
