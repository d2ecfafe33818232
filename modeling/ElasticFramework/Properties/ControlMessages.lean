import ElasticFramework.Properties.Framing

/-!
# Fields of control messages

Nine calls put a few numbers behind the type of a message of sixty-four bytes, with one `Paste` for
each, and their handlers take them out again at sums of `sizeof`.  Nothing but the agreement of the
two lists of types keeps the fields in place: a handler is given the message from its start or from
behind the type, and a field may be read narrower than it was written.

`Control` is the list of the fields of one message, `Call.control` what the client puts in, and
`Control.read` what the handler takes out; `Control.handle` is what the handler goes on to do with
it, which is how `read` is tied to the handlers (`dispatch_eq_handle`).  The two ends differ in the
number of strings of a program, a `cl_uint` that is read into an `int`, and in the length of a
kernel's name, eight bytes of which four are read.
-/

namespace ElasticFramework

open Reader

/-- The fields of a control message.  The number of strings has a sign on the node. -/
inductive Control
  | createProgramWithSource (count : ℤ)
  | createKernel (programId kernelNameLength : ℕ)
  | enqueueTask (kernelId : ℕ)
  | createBuffer (flags size : ℕ)
  | enqueueReadBuffer (memId offset cb blockingRead : ℕ)
  | enqueueWriteBuffer (memId offset cb blockingWrite : ℕ)
  | finish (queueId : ℕ)
  | enqueueCopyBuffer (srcMemId dstMemId srcOffset dstOffset cb : ℕ)
  | releaseMemObject (memId : ℕ)
  deriving DecidableEq

/-- The fields the client puts into the message of a call. -/
def Call.control : Call → Option Control
  | createProgramWithSource _ sources => some (.createProgramWithSource sources.strings.length)
  | createKernel programId kernelName => some (.createKernel programId kernelName.strlen)
  | enqueueTask kernelId => some (.enqueueTask kernelId)
  | createBuffer flags size _ => some (.createBuffer flags size)
  | enqueueReadBuffer memId offset cb blockingRead =>
    some (.enqueueReadBuffer memId offset cb blockingRead.toNat)
  | enqueueWriteBuffer memId offset cb blockingWrite _ =>
    some (.enqueueWriteBuffer memId offset cb blockingWrite.toNat)
  | finish => some (.finish 0)
  | enqueueCopyBuffer srcId dstId srcOffset dstOffset cb =>
    some (.enqueueCopyBuffer srcId dstId srcOffset dstOffset cb)
  | releaseMemObject memId => some (.releaseMemObject memId)
  | _ => none

namespace Control

/-- The values the fields have room for; the length of a name is a `size_t`, of which the message
is to carry what an `unsigned int` holds. -/
def InRange : Control → Prop
  | createProgramWithSource count => 0 ≤ count ∧ count < 2 ^ 32
  | createKernel programId kernelNameLength => programId < 2 ^ 32 ∧ kernelNameLength < 2 ^ 32
  | enqueueTask kernelId => kernelId < 2 ^ 32
  | createBuffer flags size => flags < 2 ^ 64 ∧ size < 2 ^ 64
  | enqueueReadBuffer memId offset cb blockingRead =>
    memId < 2 ^ 32 ∧ offset < 2 ^ 64 ∧ cb < 2 ^ 64 ∧ blockingRead < 2 ^ 32
  | enqueueWriteBuffer memId offset cb blockingWrite =>
    memId < 2 ^ 32 ∧ offset < 2 ^ 64 ∧ cb < 2 ^ 64 ∧ blockingWrite < 2 ^ 32
  | finish queueId => queueId < 2 ^ 32
  | enqueueCopyBuffer srcMemId dstMemId srcOffset dstOffset cb =>
    srcMemId < 2 ^ 32 ∧ dstMemId < 2 ^ 32 ∧ srcOffset < 2 ^ 64 ∧ dstOffset < 2 ^ 64 ∧ cb < 2 ^ 64
  | releaseMemObject memId => memId < 2 ^ 32

instance : DecidablePred InRange := fun f =>
  match f with
  | createProgramWithSource _ | createKernel _ _ | createBuffer _ _ | enqueueReadBuffer _ _ _ _
  | enqueueWriteBuffer _ _ _ _ | enqueueCopyBuffer _ _ _ _ _ => inferInstanceAs (Decidable (_ ∧ _))
  | enqueueTask _ | finish _ | releaseMemObject _ => inferInstanceAs (Decidable (_ < _))

/-- The fields the handler of a message takes out of it.  Two of the handlers are given the message
from its start. -/
def read (buf : List UInt8) : Option Control :=
  let recvBuf := buf.drop 4
  match field buf 0 4 with
  | 1 => some (.createProgramWithSource ((field buf 4 4 : ℤ).bmod (2 ^ 32)))
  | 3 => some (.createKernel (field recvBuf 0 4) (field recvBuf 4 4))
  | 4 => some (.enqueueTask (field recvBuf 0 4))
  | 5 => some (.createBuffer (field recvBuf 0 8) (field recvBuf 8 8))
  | 6 => some (.enqueueReadBuffer (field recvBuf 16 4) (field recvBuf 0 8) (field recvBuf 8 8)
      (field recvBuf 20 4))
  | 7 => some (.enqueueWriteBuffer (field recvBuf 16 4) (field recvBuf 0 8) (field recvBuf 8 8)
      (field recvBuf 20 4))
  | 9 => some (.finish (field recvBuf 0 4))
  | 11 => some (.enqueueCopyBuffer (field recvBuf 0 4) (field recvBuf 4 4) (field recvBuf 8 8)
      (field recvBuf 16 8) (field recvBuf 24 8))
  | 12 => some (.releaseMemObject (field recvBuf 0 4))
  | _ => none

/-- What the handler does with the fields. -/
def handle : Control → Recv Request
  | createProgramWithSource count =>
    if 0 ≤ count then do
      let lengths ← recvLengths count.toNat
      let strs ← recvStrs lengths
      pure (.createProgramWithSource lengths strs)
    else Reader.stop .abort
  | createKernel programId kernelNameLength =>
    if (kernelNameLength + 1) % 2 ^ 32 = 0 then Reader.stop .overrun
    else do
      let kernelName ← sockRecv kernelNameLength
      pure (.createKernel programId kernelName)
  | enqueueTask kernelId => pure (.enqueueTask (handlerEnqueueTask kernelId))
  | createBuffer flags size => do
    let data ← if copiesHostPtr flags then do
        let data ← sockRecv size
        pure (some data)
      else pure none
    if size ≠ 0 then pure (.createBuffer flags size data) else Reader.stop .abort
  | enqueueReadBuffer memId offset cb blockingRead =>
    pure (.enqueueReadBuffer memId offset cb blockingRead)
  | enqueueWriteBuffer memId offset cb blockingWrite => do
    let data ← sockRecv cb
    pure (.enqueueWriteBuffer memId offset cb blockingWrite data)
  | finish queueId => pure (.finish queueId)
  | enqueueCopyBuffer srcMemId dstMemId srcOffset dstOffset cb =>
    pure (.enqueueCopyBuffer srcMemId dstMemId srcOffset dstOffset cb)
  | releaseMemObject memId => pure (.releaseMemObject memId)

end Control

/-! ## The handlers go by the fields -/

/-- There is an array for a number of strings that is not negative as an `int`. -/
lemma handle_createProgramWithSource (buf : List UInt8) :
    Handler.createProgramWithSource buf =
      (Control.createProgramWithSource ((field buf 4 4 : ℤ).bmod (2 ^ 32))).handle := by
  have hlt : field buf 4 4 < 2 ^ 32 := field_lt buf 4 4
  unfold Handler.createProgramWithSource Control.handle
  rw [bmod_of_lt hlt]
  by_cases hcount : field buf 4 4 < 2 ^ 31
  · simp only [if_pos hcount]
    rw [if_pos (Int.natCast_nonneg _), Int.toNat_natCast]
  · simp only [if_neg hcount]
    rw [if_neg (by omega)]

/-- The `switch` of `Run` goes to a handler that reads these fields and goes on from them. -/
theorem dispatch_eq_handle {buf : List UInt8} {f : Control} (h : Control.read buf = some f) :
    dispatch buf = f.handle := by
  unfold Control.read at h
  unfold dispatch
  split at h
  case h_1 htype =>
    cases h
    rw [htype]
    exact handle_createProgramWithSource buf
  case h_10 => cases h
  all_goals
    rename_i htype
    cases h
    rw [htype]
    rfl

/-! ## What comes out -/

/-- The fields as the handler has them: cut to the width they are read with. -/
def Control.received : Control → Control
  | createProgramWithSource count => .createProgramWithSource (count.bmod (2 ^ 32))
  | createKernel programId kernelNameLength =>
    .createKernel (programId % 2 ^ 32) (kernelNameLength % 2 ^ 32)
  | enqueueTask kernelId => .enqueueTask (kernelId % 2 ^ 32)
  | createBuffer flags size => .createBuffer (flags % 2 ^ 64) (size % 2 ^ 64)
  | enqueueReadBuffer memId offset cb blockingRead =>
    .enqueueReadBuffer (memId % 2 ^ 32) (offset % 2 ^ 64) (cb % 2 ^ 64) (blockingRead % 2 ^ 32)
  | enqueueWriteBuffer memId offset cb blockingWrite =>
    .enqueueWriteBuffer (memId % 2 ^ 32) (offset % 2 ^ 64) (cb % 2 ^ 64) (blockingWrite % 2 ^ 32)
  | finish queueId => .finish (queueId % 2 ^ 32)
  | enqueueCopyBuffer srcMemId dstMemId srcOffset dstOffset cb =>
    .enqueueCopyBuffer (srcMemId % 2 ^ 32) (dstMemId % 2 ^ 32) (srcOffset % 2 ^ 64)
      (dstOffset % 2 ^ 64) (cb % 2 ^ 64)
  | releaseMemObject memId => .releaseMemObject (memId % 2 ^ 32)

namespace Invocation

/-- The message of the call has room for what is pasted into it, and the handler it goes to takes
these fields out of it. -/
def Carries (c : Invocation) (f : Control) : Prop :=
  ∃ msg payload, c.call.sends c.stack = some (msg :: payload) ∧ msg.length = kMsgMaxSize ∧
    Control.read msg = some f

/-- A message has one list of fields. -/
lemma Carries.eq {c : Invocation} {f g : Control} (h : c.Carries f) (h' : c.Carries g) : f = g := by
  obtain ⟨msg, payload, hsends, -, hread⟩ := h
  obtain ⟨msg', payload', hsends', -, hread'⟩ := h'
  have hmsg : msg = msg' := by
    have hcons := Option.some.inj (hsends.symm.trans hsends')
    exact (List.cons.inj hcons).1
  rw [hmsg, hread'] at hread
  exact (Option.some.inj hread).symm

lemma carries_of_sends {c : Invocation} (buf : MsgBuf) (type : MsgType)
    (fields payload : List (List UInt8)) {f : Control}
    (hroom : 4 + fields.flatten.length ≤ kMsgMaxSize)
    (hsends : ∀ msg, message buf type fields = some msg →
      c.call.sends c.stack = some (msg :: payload))
    (hread : ∀ tail, Control.read (leBytes 4 type.num ++ (fields.flatten ++ tail)) = some f) :
    c.Carries f := by
  obtain ⟨tail, hsends, hlength⟩ := sends_fields c buf type fields payload hroom hsends
  exact ⟨_, payload, hsends, hlength, hread tail⟩

end Invocation

/-- The fields a handler finds behind a known type. -/
lemma read_message (type : MsgType) (recvBuf : List UInt8) :
    Control.read (leBytes 4 type.num ++ recvBuf) =
      match type with
      | .createProgramWithSource =>
        some (.createProgramWithSource ((field recvBuf 0 4 : ℤ).bmod (2 ^ 32)))
      | .createKernel => some (.createKernel (field recvBuf 0 4) (field recvBuf 4 4))
      | .enqueueTask => some (.enqueueTask (field recvBuf 0 4))
      | .createBuffer => some (.createBuffer (field recvBuf 0 8) (field recvBuf 8 8))
      | .enqueueReadBuffer => some (.enqueueReadBuffer (field recvBuf 16 4) (field recvBuf 0 8)
          (field recvBuf 8 8) (field recvBuf 20 4))
      | .enqueueWriteBuffer => some (.enqueueWriteBuffer (field recvBuf 16 4) (field recvBuf 0 8)
          (field recvBuf 8 8) (field recvBuf 20 4))
      | .finish => some (.finish (field recvBuf 0 4))
      | .enqueueCopyBuffer => some (.enqueueCopyBuffer (field recvBuf 0 4) (field recvBuf 4 4)
          (field recvBuf 8 8) (field recvBuf 16 8) (field recvBuf 24 8))
      | .releaseMemObject => some (.releaseMemObject (field recvBuf 0 4))
      | _ => none := by
  have htype : field (leBytes 4 type.num ++ recvBuf) 0 4 = type.num % 2 ^ 32 :=
    field_leBytes 4 4 type.num recvBuf le_rfl
  have hcount : field (leBytes 4 type.num ++ recvBuf) 4 4 = field recvBuf 0 4 := by
    rw [field_append (by simp), length_leBytes]
  have hdrop : (leBytes 4 type.num ++ recvBuf).drop 4 = recvBuf :=
    List.drop_left' (length_leBytes 4 type.num)
  unfold Control.read
  rw [htype, hcount, hdrop]
  cases type <;> rfl

/-- Whatever the client puts in, the handler finds it in its place and cut to its width. -/
theorem carries_received {c : Invocation} {f : Control} (hf : c.call.control = some f) :
    c.Carries f.received := by
  obtain ⟨call, stack⟩ := c
  cases call with
  | createProgramWithSource id sources =>
      cases hf
      refine Invocation.carries_of_sends zeroed .createProgramWithSource
        [leBytes 4 sources.strings.length, leBytes 4 id]
        ((sources.strings.map fun s => leBytes 8 (sources.sendLength s.2)) ++
          sources.strings.map fun s => bytesOf s.1 (sources.sendLength s.2)) (by simp [kMsgMaxSize])
        (fun msg hmsg => by simp [Call.sends, hmsg]) fun tail => ?_
      have hcount : field ([leBytes 4 sources.strings.length, leBytes 4 id].flatten ++ tail) 0 4 =
          sources.strings.length := by
        have hlt := sources.count_lt
        rw [List.flatten_cons, List.append_assoc, field_leBytes 4 4 _ _ le_rfl]
        omega
      rw [read_message]
      simp only [hcount]
      rfl
  | createKernel programId kernelName =>
      cases hf
      refine Invocation.carries_of_sends zeroed .createKernel
        [leBytes 4 programId, leBytes 8 kernelName.strlen]
        [bytesOf kernelName.mem kernelName.strlen] (by simp [kMsgMaxSize])
        (fun msg hmsg => by simp [Call.sends, hmsg]) fun tail => ?_
      rw [read_message]
      simp [field_append, field_leBytes, Control.received]
  | enqueueTask kernelId =>
      cases hf
      refine Invocation.carries_of_sends zeroed .enqueueTask [leBytes 4 kernelId] []
        (by simp [kMsgMaxSize]) (fun msg hmsg => by simp [Call.sends, hmsg]) fun tail => ?_
      rw [read_message]
      simp [field_leBytes, Control.received]
  | createBuffer flags size hostPtr =>
      cases hf
      refine Invocation.carries_of_sends zeroed .createBuffer [leBytes 8 flags, leBytes 8 size]
        (if copiesHostPtr flags then [bytesOf hostPtr size] else []) (by simp [kMsgMaxSize])
        (fun msg hmsg => ?_) fun tail => ?_
      · simp only [Call.sends, hmsg, Option.bind_eq_bind, Option.bind_some]
        split <;> rfl
      · rw [read_message]
        simp [field_append, field_leBytes, Control.received]
  | enqueueReadBuffer memId offset cb blockingRead =>
      cases hf
      refine Invocation.carries_of_sends zeroed .enqueueReadBuffer
        [leBytes 8 offset, leBytes 8 cb, leBytes 4 memId, leBytes 4 blockingRead.toNat] []
        (by simp [kMsgMaxSize]) (fun msg hmsg => by simp [Call.sends, hmsg]) fun tail => ?_
      rw [read_message]
      simp [field_append, field_leBytes, Control.received]
  | enqueueWriteBuffer memId offset cb blockingWrite ptr =>
      cases hf
      refine Invocation.carries_of_sends zeroed .enqueueWriteBuffer
        [leBytes 8 offset, leBytes 8 cb, leBytes 4 memId, leBytes 4 blockingWrite.toNat]
        [bytesOf ptr cb] (by simp [kMsgMaxSize]) (fun msg hmsg => by simp [Call.sends, hmsg])
        fun tail => ?_
      rw [read_message]
      simp [field_append, field_leBytes, Control.received]
  | finish =>
      cases hf
      refine Invocation.carries_of_sends stack.sendBuf .finish [leBytes 4 0] []
        (by simp [kMsgMaxSize]) (fun msg hmsg => by simp [Call.sends, hmsg]) fun tail => ?_
      rw [read_message]
      simp [field_leBytes, Control.received]
  | enqueueCopyBuffer srcId dstId srcOffset dstOffset cb =>
      cases hf
      refine Invocation.carries_of_sends stack.sendBuf .enqueueCopyBuffer
        [leBytes 4 srcId, leBytes 4 dstId, leBytes 8 srcOffset, leBytes 8 dstOffset, leBytes 8 cb]
        [] (by simp [kMsgMaxSize]) (fun msg hmsg => by simp [Call.sends, hmsg]) fun tail => ?_
      rw [read_message]
      simp [field_append, field_leBytes, Control.received]
  | releaseMemObject memId =>
      cases hf
      refine Invocation.carries_of_sends stack.sendBuf .releaseMemObject [leBytes 4 memId] []
        (by simp [kMsgMaxSize]) (fun msg hmsg => by simp [Call.sends, hmsg]) fun tail => ?_
      rw [read_message]
      simp [field_leBytes, Control.received]
  | register _ => cases hf
  | buildProgram _ _ => cases hf
  | enqueueNDRangeKernel _ _ _ => cases hf
  | bullet3ReadResultBack _ => cases hf
  | bullet3WriteToGPU _ _ => cases hf

/-- Fields in range are read as they are, but for a number of strings that is negative as an
`int`. -/
lemma received_eq_iff {f : Control} (hrange : f.InRange) :
    f.received = f ↔ ∀ count, f = .createProgramWithSource count → count < 2 ^ 31 := by
  cases f with
  | createProgramWithSource count =>
      obtain ⟨hnonneg, hlt⟩ := hrange
      obtain ⟨n, rfl⟩ := Int.eq_ofNat_of_zero_le hnonneg
      rw [Control.received, bmod_of_lt (by omega)]
      simp only [Control.createProgramWithSource.injEq, forall_eq']
      split <;> omega
  | _ =>
      simp only [Control.InRange] at hrange
      simp only [Control.received, reduceCtorEq, false_imp_iff, implies_true, iff_true]
      congr 1 <;> omega

/-- The handler takes out of a control message what the client put in, whatever the values the
fields have room for, unless the number of strings of a program is `2 ^ 31` or more. -/
theorem carries_iff {c : Invocation} {f : Control} (hf : c.call.control = some f)
    (hrange : f.InRange) :
    c.Carries f ↔ ∀ count, f = .createProgramWithSource count → count < 2 ^ 31 := by
  rw [← received_eq_iff hrange]
  constructor
  · exact (carries_received hf).eq
  · intro heq
    have hcarries := carries_received hf
    rwa [heq] at hcarries

/-- A copy of a buffer onto another. -/
theorem copy_carried : (⟨.enqueueCopyBuffer 1 2 16 32 64, clearStack⟩ : Invocation).Carries
    (.enqueueCopyBuffer 1 2 16 32 64) :=
  (carries_iff (c := ⟨.enqueueCopyBuffer 1 2 16 32 64, clearStack⟩) rfl (by decide)).2 (by simp)

/-- As many empty strings as make the `int` negative. -/
def manyStrings : Sources where
  strings := List.replicate (2 ^ 31) (fun _ => 0, 0)
  strlen := 0
  count_lt := by
    rw [List.length_replicate]
    omega

/-- The handler takes their number for `-2 ^ 31`. -/
theorem count_read_negative :
    ¬ (⟨.createProgramWithSource 0 manyStrings, clearStack⟩ : Invocation).Carries
      (.createProgramWithSource (2 ^ 31)) := by
  intro h
  have hlength : manyStrings.strings.length = 2 ^ 31 := List.length_replicate
  have heq := (carries_received
    (c := ⟨.createProgramWithSource 0 manyStrings, clearStack⟩) rfl).eq h
  rw [Control.received, hlength] at heq
  have hcount := Control.createProgramWithSource.inj heq
  rw [bmod_of_lt (by omega), if_neg (by omega)] at hcount
  omega

end ElasticFramework
