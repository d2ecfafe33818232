import ElasticFramework.Construction.Handles

/-!
# Handle agreement

The id in a handle is the index of the object that the node created for the call the handle comes
from (`HandleSession.Agrees`).  For buffers this is a matter of counting: requests are read in order
and nothing is taken out of `mems`, so the objects, followed by the requests for buffers that are
not read yet, are in the order of the handles.  For programs and kernels the reply has to be read by
the caller it is meant for, and it has to be read back as the number it was.

The first fails after a blocking read.  Its caller reads on the non-blocking socket, so if the
read comes to an end at all, by taking bytes meant for a catcher, its reply stays on the main socket
and is what the next caller reads.  `handles_agree` is for runs in which nobody asks for a program
or a kernel after that; `misread_program` is a run in which somebody does.
-/

namespace ElasticFramework

/-! ## Replies are read back -/

lemma length_programReply (k : ℕ) : (programReply k).length = kMsgMaxSize := by
  simp [programReply, kMsgMaxSize]

lemma length_kernelReply (k : ℕ) : (kernelReply k).length = kMsgMaxSize := by
  simp [kernelReply, kMsgMaxSize]
  omega

lemma field_programReply {k : ℕ} (h : k < 2 ^ 32) : field (programReply k) 0 4 = k := by
  rw [programReply, field_leBytes 4 4 _ _ le_rfl]
  omega

/-- The text of an index that fits an `int`. -/
lemma scanKernelId_kernelReply {k : ℕ} (h : k < 2 ^ 31) :
    scanKernelId ((kernelReply k).drop 4) = some k := by
  have hprinted : (printed k).length ≤ 10 := (length_printed_le (by omega)).2 (by omega)
  have htext : kernelIdText.length = 10 := rfl
  obtain ⟨zeros, hzeros⟩ : ∃ zeros, zeros =
      (List.replicate kMsgMaxSize (0 : UInt8)).take (59 - (10 + (printed k).length)) ++ [0] :=
    ⟨_, rfl⟩
  have hdrop : (kernelReply k).drop 4 = kernelIdText ++ (printed k ++ zeros) := by
    rw [kernelReply, List.drop_left' (length_leBytes 4 0), ← List.append_assoc kernelIdText,
      List.take_append, List.take_of_length_le (by rw [List.length_append]; omega),
      List.length_append, htext, hzeros, List.append_assoc, List.append_assoc]
  have hends : EndsNumber zeros := by
    intro b hb
    have hmem : b ∈ zeros := List.mem_of_mem_head? hb
    have hzero : b = 0 := by
      rw [hzeros, List.mem_append] at hmem
      rcases hmem with hmem | hmem
      · exact List.eq_of_mem_replicate (List.mem_of_mem_take hmem)
      · exact List.mem_singleton.1 hmem
    rw [hzero]
    decide
  rw [scanKernelId, hdrop, List.take_left, List.drop_left, if_pos rfl, scanned_printed k hends,
    Option.filter_some, if_pos (by simpa using h)]

/-- How many ids there are for a kind of object; those of kernels are read as an `int`. -/
def ObjectKind.ids : ObjectKind → ℕ
  | program => 2 ^ 32
  | kernel => 2 ^ 31
  | mem => 2 ^ 32

namespace HandleCall

variable {c : HandleCall} {k : ℕ}

/-- Nothing is sent on the main socket for the request. -/
def silent : HandleCall → Bool
  | createBuffer | releaseMemObject | enqueueReadBuffer false _ | other none => true
  | _ => false

/-- There is an id for one more object. -/
def Fits (c : HandleCall) (k : ℕ) : Prop := ∀ kind, c.kind = some kind → k < kind.ids

lemma length_reply (h : c.answered = true) (k : ℕ) : (c.reply k).length = kMsgMaxSize := by
  cases c with
  | createProgramWithSource => exact length_programReply k
  | createKernel => exact length_kernelReply k
  | other reply =>
      cases reply with
      | none => cases h
      | some reply => exact reply.2
  | createBuffer => cases h
  | releaseMemObject => cases h
  | enqueueReadBuffer _ _ => cases h

/-- The handle made of the reply has the index in it. -/
lemma handles_reply (hk : c.Fits k) (call : ℕ) :
    ∀ h ∈ c.handles call (c.reply k), c.kind = some h.kind ∧ h.kind ≠ .mem ∧ h.call = call ∧
      h.id = some k := by
  intro h hh
  cases c with
  | createProgramWithSource =>
      rw [handles, List.mem_singleton] at hh
      subst hh
      refine ⟨rfl, by simp, rfl, ?_⟩
      rw [reply, field_programReply (hk .program rfl)]
  | createKernel =>
      rw [handles, List.mem_singleton] at hh
      subst hh
      exact ⟨rfl, by simp, rfl, scanKernelId_kernelReply (hk .kernel rfl)⟩
  | createBuffer => cases hh
  | releaseMemObject => cases hh
  | enqueueReadBuffer _ _ => cases hh
  | other _ => cases hh

lemma kind_of_handles {recvBuf : List UInt8} {call : ℕ} :
    ∀ h ∈ c.handles call recvBuf, h.kind ≠ .mem := by
  intro h hh
  cases c <;> simp [handles] at hh <;> simp [hh]

lemma handles_of_not_named (h : c.named = false) (call : ℕ) (recvBuf : List UInt8) :
    c.handles call recvBuf = [] := by
  cases c with
  | createProgramWithSource => cases h
  | createKernel => cases h
  | _ => rfl

lemma kind_of_silent (h : c.silent = true) : c.kind = none ∨ c.kind = some .mem := by
  cases c <;> simp [silent, kind] at h ⊢

lemma kind_of_answered (h : c.answered = true) : c.kind ≠ some .mem := by
  cases c <;> simp [answered, kind] at h ⊢

lemma not_named_of_silent (h : c.silent = true) : c.named = false := by
  cases c <;> simp [silent, named] at h ⊢

/-- The caller goes on, waits for a message, or waits for data. -/
lemma waits_cases (c : HandleCall) (call : ℕ) :
    c.waits call = none ∧ c.silent = true ∨
      c.waits call = some (.message call c) ∧ c.answered = true ∨
      ∃ left, c.waits call = some (.data left) ∧ c.named = false := by
  cases c with
  | enqueueReadBuffer blockingRead data =>
      cases blockingRead with
      | false => exact Or.inl ⟨rfl, rfl⟩
      | true => exact Or.inr (Or.inr ⟨_, rfl, rfl⟩)
  | other reply =>
      cases reply with
      | none => exact Or.inl ⟨rfl, rfl⟩
      | some reply => exact Or.inr (Or.inl ⟨rfl, rfl⟩)
  | createBuffer => exact Or.inl ⟨rfl, rfl⟩
  | releaseMemObject => exact Or.inl ⟨rfl, rfl⟩
  | createProgramWithSource => exact Or.inr (Or.inl ⟨rfl, rfl⟩)
  | createKernel => exact Or.inr (Or.inl ⟨rfl, rfl⟩)

lemma reply_of_silent (h : c.silent = true) (k : ℕ) : c.reply k = [] := by
  cases c with
  | other reply => cases reply <;> simp_all [silent, HandleCall.reply]
  | createProgramWithSource => cases h
  | createKernel => cases h
  | _ => rfl

end HandleCall

/-! ## Who waits for what -/

namespace HandleSession

variable {s s' : HandleSession}

/-- Nothing is under way that the caller is answered, or `Run` is blocked, for. -/
structure Idle (s : HandleSession) : Prop where
  inbox : ∀ x ∈ s.inbox, x.2.silent = true
  wire : s.wire = []
  run : s.run = .recv

/-- The request is the last that is not read, and nothing else is sent until it is. -/
structure Asked (s : HandleSession) (call : ℕ) (c : HandleCall) : Prop where
  inbox : ∃ pre, s.inbox = pre ++ [(call, c)] ∧ ∀ x ∈ pre, x.2.silent = true
  wire : s.wire = []
  run : s.run = .recv
  fits : c.Fits (s.size c.kind)

/-- The request has been handled, and its reply is all that has been sent. -/
structure Answered (s : HandleSession) (call : ℕ) (c : HandleCall) : Prop where
  inbox : s.inbox = []
  run : s.run = .recv
  wire : ∃ k, s.wire = c.reply k ∧ c.Fits k ∧
    ∀ kind, c.kind = some kind → (s.objects kind)[k]? = some call

/-- No program or kernel is under way. -/
structure Unnamed (s : HandleSession) : Prop where
  inbox : ∀ x ∈ s.inbox, x.2.named = false
  waiting : ∀ call c, s.waiting = some (.message call c) → c.named = false

/-- What the caller reads is what is sent for it. -/
def Aligned (s : HandleSession) : Prop :=
  match s.waiting with
  | none => s.Idle
  | some (.message call c) => c.answered = true ∧ (s.Asked call c ∨ s.Answered call c)
  | some (.data _) => s.Unnamed

/-! ## What a handler does -/

/-- A handler that answers nothing leaves the socket and the other vectors alone. -/
lemma handle_silent {c : HandleCall} (hc : c.silent = true) (call : ℕ) :
    (s.handle call c).wire = s.wire ∧ (s.handle call c).run = .recv ∧
      ∀ kind, kind ≠ some .mem → (s.handle call c).size kind = s.size kind := by
  refine ⟨?_, ?_, ?_⟩
  · show s.wire ++ c.reply (s.size c.kind) = s.wire
    rw [HandleCall.reply_of_silent hc, List.append_nil]
  · cases c with
    | enqueueReadBuffer blockingRead data =>
        cases blockingRead with
        | false => rfl
        | true => cases hc
    | _ => rfl
  · intro kind hkind
    cases kind with
    | none => rfl
    | some kind =>
        have hne : kind ≠ .mem := fun heq => hkind (congrArg some heq)
        show (s.create call c.kind kind).length = (s.objects kind).length
        rcases HandleCall.kind_of_silent hc with hnone | hmem
        · rw [hnone, create]
        · rw [hmem, create, Function.update_of_ne hne]

/-- The new object is the last of its vector. -/
lemma objects_handle {c : HandleCall} {kind : ObjectKind} (hkind : c.kind = some kind) (call : ℕ) :
    ((s.handle call c).objects kind)[s.size c.kind]? = some call := by
  show (s.create call c.kind kind)[s.size c.kind]? = some call
  rw [hkind, create, Function.update_self, size, Option.elim_some]
  exact List.getElem?_concat_length

/-- No object is moved. -/
lemma objects_handle_of_some {c : HandleCall} {kind : ObjectKind} {i n : ℕ} (call : ℕ)
    (h : (s.objects kind)[i]? = some n) : ((s.handle call c).objects kind)[i]? = some n := by
  show (s.create call c.kind kind)[i]? = some n
  cases hkind : c.kind with
  | none => exact h
  | some kind' =>
      rw [create]
      by_cases heq : kind = kind'
      · subst heq
        rw [Function.update_self]
        obtain ⟨hi, -⟩ := List.getElem?_eq_some_iff.1 h
        rw [List.getElem?_append_left hi]
        exact h
      · rw [Function.update_of_ne heq]
        exact h

lemma serve_inv (h : s.serve = some s') :
    ∃ call c inbox, s.run = .recv ∧ s.inbox = (call, c) :: inbox ∧
      s' = { s.handle call c with inbox := inbox } := by
  unfold serve at h
  split at h
  · rename_i call c inbox hrun hinbox
    exact ⟨call, c, inbox, hrun, hinbox, (Option.some.inj h).symm⟩
  · cases h

/-! ## Who waits for what, step by step -/

/-- How many objects of the kind have been asked for. -/
def requested (s : HandleSession) (kind : ObjectKind) : ℕ :=
  (s.objects kind).length + (s.inbox.filter fun x => x.2.kind = some kind).length

lemma call_inv {c : HandleCall} (h : s.call c = some s') :
    s.waiting = none ∧ s' = { s with
      made := s.made + 1
      inbox := s.inbox ++ [(s.made, c)]
      waiting := c.waits s.made
      catchers := s.catchers ++ c.catches
      memId := if c.kind = some .mem then (s.memId + 1) % 2 ^ 32 else s.memId
      handles := if c.kind = some .mem then s.handles ++ [⟨s.made, .mem, some s.memId⟩]
        else s.handles } := by
  unfold call at h
  split at h
  · rename_i hcond
    exact ⟨Option.isNone_iff_eq_none.1 hcond.1, (Option.some.inj h).symm⟩
  · cases h

/-- Nothing but the worker's business is different. -/
structure Rest (s s' : HandleSession) : Prop where
  waiting : s'.waiting = s.waiting
  inbox : s'.inbox = s.inbox
  wire : s'.wire = s.wire
  handles : s'.handles = s.handles
  memId : s'.memId = s.memId
  objects : s'.objects = s.objects
  run : s'.run = s.run ∨ ∃ data, s.run = .block data

lemma catcher_inv {i n : ℕ} (h : s.catcher i n = some s') : s.Rest s' := by
  unfold catcher at h
  split at h
  · split at h
    · split at h <;> cases h <;> exact ⟨rfl, rfl, rfl, rfl, rfl, rfl, Or.inl rfl⟩
    · cases h
  · cases h

lemma ack_inv (h : s.ack = some s') : s.Rest s' := by
  unfold ack at h
  split at h
  · cases h
    exact ⟨rfl, rfl, rfl, rfl, rfl, rfl, Or.inl rfl⟩
  · cases h

lemma exec_inv (h : s.exec = some s') : s.Rest s' := by
  unfold exec at h
  split at h
  · split at h
    · rename_i data hrun
      cases h
      exact ⟨rfl, rfl, rfl, rfl, rfl, rfl, Or.inr ⟨data, hrun⟩⟩
    · cases h
      exact ⟨rfl, rfl, rfl, rfl, rfl, rfl, Or.inl rfl⟩
  · cases h
    exact ⟨rfl, rfl, rfl, rfl, rfl, rfl, Or.inl rfl⟩
  · cases h

namespace Aligned

/-- A caller that has nothing to wait for makes its next call. -/
lemma call (h : s.Aligned) {c : HandleCall} (hfits : ∀ kind, c.kind = some kind →
    s.requested kind < kind.ids) (hs : s.call c = some s') : s'.Aligned := by
  obtain ⟨hwaiting, rfl⟩ := call_inv hs
  rw [Aligned, hwaiting] at h
  rcases c.waits_cases s.made with ⟨hwaits, hc⟩ | ⟨hwaits, hc⟩ | ⟨left, hwaits, hc⟩
  · simp only [Aligned, hwaits]
    refine ⟨fun x hx => ?_, h.wire, h.run⟩
    rcases List.mem_append.1 hx with hx | hx
    · exact h.inbox x hx
    · rw [List.mem_singleton.1 hx]
      exact hc
  · simp only [Aligned, hwaits]
    refine ⟨hc, Or.inl ⟨⟨s.inbox, rfl, h.inbox⟩, h.wire, h.run, fun kind hkind => ?_⟩⟩
    have hlt := hfits kind hkind
    rw [hkind]
    exact (Nat.le_add_right _ _).trans_lt hlt
  · simp only [Aligned, hwaits]
    refine ⟨fun x hx => ?_, fun call d hd => by simp at hd⟩
    rcases List.mem_append.1 hx with hx | hx
    · exact HandleCall.not_named_of_silent (h.inbox x hx)
    · rw [List.mem_singleton.1 hx]
      exact hc

lemma serve (h : s.Aligned) (hs : s.serve = some s') : s'.Aligned := by
  obtain ⟨call, c, inbox, hrun, hinbox, rfl⟩ := serve_inv hs
  have hhead : (call, c) ∈ s.inbox := by
    rw [hinbox]
    exact List.mem_cons_self ..
  have htail : ∀ x ∈ inbox, x ∈ s.inbox := fun x hx => by
    rw [hinbox]
    exact List.mem_cons_of_mem _ hx
  cases hwaiting : s.waiting with
  | none =>
      simp only [Aligned, hwaiting] at h
      obtain ⟨hwire, hrun', -⟩ := handle_silent (s := s) (h.inbox _ hhead) call
      simp only [Aligned, handle, hwaiting]
      exact ⟨fun x hx => h.inbox x (htail x hx), hwire.trans h.wire, hrun'⟩
  | some w =>
      cases w with
      | data left =>
          simp only [Aligned, hwaiting] at h
          simp only [Aligned, handle, hwaiting]
          exact ⟨fun x hx => h.inbox x (htail x hx), fun call c hc => by cases hc⟩
      | message n d =>
          simp only [Aligned, hwaiting] at h
          obtain ⟨hd, hasked | hanswered⟩ := h
          · obtain ⟨⟨pre, hpre, hsilent⟩, hwire, -, hfits⟩ := hasked
            rw [hpre] at hinbox
            simp only [Aligned, handle, hwaiting]
            refine ⟨hd, ?_⟩
            cases pre with
            | nil =>
                -- It is the turn of the caller's request.
                cases hinbox
                refine Or.inr ⟨rfl, ?_, s.size c.kind, ?_, hfits, fun kind hkind => ?_⟩
                · cases c with
                  | enqueueReadBuffer _ _ => cases hd
                  | _ => rfl
                · rw [hwire, List.nil_append]
                · exact objects_handle hkind call
            | cons x pre =>
                cases hinbox
                obtain ⟨hwire', hrun', hsize⟩ :=
                  handle_silent (s := s) (hsilent (call, c) (List.mem_cons_self ..)) call
                refine Or.inl ⟨⟨pre, rfl, fun x hx => hsilent x (List.mem_cons_of_mem _ hx)⟩,
                  hwire'.trans hwire, hrun', ?_⟩
                rw [← hsize d.kind (HandleCall.kind_of_answered hd)] at hfits
                exact hfits
          · rw [hanswered.inbox] at hinbox
            cases hinbox

/-- The caller reads its reply, and nothing is left. -/
lemma recvMessage (h : s.Aligned) (hs : s.recvMessage = some s') : s'.Aligned := by
  unfold HandleSession.recvMessage at hs
  split at hs
  · rename_i call c hwaiting
    simp only [Aligned, hwaiting] at h
    obtain ⟨hc, hasked | hanswered⟩ := h
    · rw [hasked.wire] at hs
      cases hs
    · split at hs
      · cases hs
        obtain ⟨k, hwire, -⟩ := hanswered.wire
        have hnil : s.wire.drop kMsgMaxSize = [] := by
          rw [hwire]
          exact List.drop_eq_nil_of_le (HandleCall.length_reply hc k).le
        exact ⟨by simp [hanswered.inbox], hnil, hanswered.run⟩
      · cases hs
  · cases hs

/-- While the caller's request is under way, `Run` is not blocked. -/
lemma rest (h : s.Aligned) (hs : s.Rest s') : s'.Aligned := by
  have hrun : s.run = .recv → s'.run = .recv := by
    intro hrecv
    rcases hs.run with heq | ⟨data, hblock⟩
    · rw [heq, hrecv]
    · rw [hrecv] at hblock
      cases hblock
  have hsize : ∀ kind, s'.size kind = s.size kind := fun kind => by
    rw [size, size, hs.objects]
  unfold Aligned at h ⊢
  rw [hs.waiting]
  cases hwaiting : s.waiting with
  | none =>
      simp only [hwaiting] at h
      exact ⟨hs.inbox ▸ h.inbox, hs.wire.trans h.wire, hrun h.run⟩
  | some w =>
      cases w with
      | data left =>
          simp only [hwaiting] at h
          exact ⟨hs.inbox ▸ h.inbox, hs.waiting ▸ h.waiting⟩
      | message call c =>
          simp only [hwaiting] at h
          refine ⟨h.1, h.2.imp (fun hasked => ?_) fun hanswered => ?_⟩
          · exact ⟨hs.inbox ▸ hasked.inbox, hs.wire.trans hasked.wire, hrun hasked.run,
              (hsize c.kind).symm ▸ hasked.fits⟩
          · exact ⟨hs.inbox.trans hanswered.inbox, hrun hanswered.run,
              hs.wire ▸ hs.objects ▸ hanswered.wire⟩

/-- `Run` is blocked only while the caller waits for data. -/
lemma run_eq_recv (h : s.Aligned) (hwaiting : ∀ left, s.waiting ≠ some (.data left)) :
    s.run = .recv := by
  unfold Aligned at h
  split at h
  · exact h.run
  · rcases h.2 with hasked | hanswered
    · exact hasked.run
    · exact hanswered.run
  · rename_i left hdata
    exact absurd hdata (hwaiting left)

/-- While the caller waits for data, no program or kernel is under way. -/
lemma unnamed {left : ℕ} (h : s.Aligned) (hwaiting : s.waiting = some (.data left)) :
    s.Unnamed := by
  unfold Aligned at h
  rwa [hwaiting] at h

/-- A blocking read is answered while its caller waits for data. -/
lemma reply (h : s.Aligned) (hs : s.reply = some s') : s'.Aligned := by
  unfold HandleSession.reply at hs
  split at hs
  · rename_i data hrun
    cases hs
    by_cases hwaiting : ∃ left, s.waiting = some (.data left)
    · obtain ⟨left, hwaiting⟩ := hwaiting
      have hunnamed := h.unnamed hwaiting
      simp only [Aligned, hwaiting]
      exact ⟨hunnamed.inbox, fun call c hc => by cases hc⟩
    · rw [h.run_eq_recv (not_exists.1 hwaiting)] at hrun
      cases hrun
  · cases hs

end Aligned

/-! ## After a blocking read has returned -/

namespace Unnamed

lemma call (h : s.Unnamed) {c : HandleCall} (hc : c.named = false) (hs : s.call c = some s') :
    s'.Unnamed := by
  obtain ⟨-, rfl⟩ := call_inv hs
  refine ⟨fun x hx => ?_, fun n d hd => ?_⟩
  · rcases List.mem_append.1 hx with hx | hx
    · exact h.inbox x hx
    · rw [List.mem_singleton.1 hx]
      exact hc
  · rcases c.waits_cases s.made with ⟨hwaits, -⟩ | ⟨hwaits, -⟩ | ⟨left, hwaits, -⟩
    · cases hwaits.symm.trans hd
    · cases hwaits.symm.trans hd
      exact hc
    · cases hwaits.symm.trans hd

lemma rest (h : s.Unnamed) (hs : s.Rest s') : s'.Unnamed :=
  ⟨hs.inbox ▸ h.inbox, hs.waiting ▸ h.waiting⟩

lemma serve (h : s.Unnamed) (hs : s.serve = some s') : s'.Unnamed := by
  obtain ⟨call, c, inbox, -, hinbox, rfl⟩ := serve_inv hs
  refine ⟨fun x hx => h.inbox x ?_, h.waiting⟩
  rw [hinbox]
  exact List.mem_cons_of_mem _ hx

lemma recvMessage (h : s.Unnamed) (hs : s.recvMessage = some s') : s'.Unnamed := by
  unfold HandleSession.recvMessage at hs
  split at hs
  · split at hs
    · cases hs
      exact ⟨h.inbox, fun call c hc => by cases hc⟩
    · cases hs
  · cases hs

lemma reply (h : s.Unnamed) (hs : s.reply = some s') : s'.Unnamed := by
  unfold HandleSession.reply at hs
  split at hs
  · cases hs
    exact ⟨h.inbox, h.waiting⟩
  · cases hs

end Unnamed

/-- Data is taken from the non-blocking socket only. -/
lemma recvData_inv {n : ℕ} (h : s.recvData n = some s') :
    ∃ left, s.waiting = some (.data left) ∧ s' = { s with
      waiting := if n = left then none else some (.data (left - n))
      dataWire := s.dataWire - n } := by
  unfold recvData at h
  split at h
  · rename_i left hwaiting
    split at h
    · exact ⟨left, hwaiting, (Option.some.inj h).symm⟩
    · cases h
  · cases h

lemma Unnamed.recvData {n : ℕ} (h : s.Unnamed) (hs : s.recvData n = some s') : s'.Unnamed := by
  obtain ⟨left, -, rfl⟩ := recvData_inv hs
  refine ⟨h.inbox, fun call c hc => ?_⟩
  by_cases hn : n = left
  · simp [hn] at hc
  · simp [hn] at hc

/-- What the step says of a blocking read that returns. -/
def readReturned (s : HandleSession) : HandleStep → List Unit
  | .recvData n =>
    match s.waiting with
    | some (.data left) => if n = left then [()] else []
    | _ => []
  | _ => []

/-- Data comes, and if the read does not return with it the caller goes on waiting for data. -/
lemma Aligned.recvData {n : ℕ} (h : s.Aligned) (hs : s.recvData n = some s') :
    s'.Unnamed ∧ (s.readReturned (.recvData n) = [] → s'.Aligned) := by
  obtain ⟨left, hwaiting, heq⟩ := recvData_inv hs
  have hunnamed := (h.unnamed hwaiting).recvData hs
  refine ⟨hunnamed, fun hnil => ?_⟩
  have hne : n ≠ left := by
    rintro rfl
    simp [readReturned, hwaiting] at hnil
  have hwaiting' : s'.waiting = some (.data (left - n)) := by
    rw [heq]
    exact if_neg hne
  unfold Aligned
  rw [hwaiting']
  exact hunnamed

/-! ## Buffers are counted -/

/-- The handles of buffers, oldest first. -/
def bufferHandles (s : HandleSession) : List Handle := s.handles.filter fun h => h.kind = .mem

/-- The calls for buffers that are not read yet. -/
def unreadBuffers (s : HandleSession) : List ℕ :=
  (s.inbox.filter fun x => x.2.kind = some .mem).map Prod.fst

/-- The buffers there are and those asked for are in the order of their handles, and the handles
are numbered. -/
structure Counted (s : HandleSession) : Prop where
  calls : s.bufferHandles.map Handle.call = s.objects .mem ++ s.unreadBuffers
  ids : ∀ i (h : Handle), s.bufferHandles[i]? = some h → h.id = some i
  memId : s.memId = s.bufferHandles.length % 2 ^ 32

lemma Counted.requested_mem (h : s.Counted) : s.requested .mem = s.bufferHandles.length := by
  have hlength := congrArg List.length h.calls
  rw [List.length_map, List.length_append, unreadBuffers, List.length_map] at hlength
  exact hlength.symm

namespace Counted

lemma congr (h : s.Counted) (hhandles : s'.bufferHandles = s.bufferHandles)
    (hmemId : s'.memId = s.memId)
    (hcalls : s'.objects .mem ++ s'.unreadBuffers = s.objects .mem ++ s.unreadBuffers) :
    s'.Counted where
  calls := by rw [hhandles, hcalls, h.calls]
  ids := by
    rw [hhandles]
    exact h.ids
  memId := by rw [hhandles, hmemId, h.memId]

lemma call (h : s.Counted) {c : HandleCall} (hfits : ∀ kind, c.kind = some kind →
    s.requested kind < kind.ids) (hs : s.call c = some s') : s'.Counted := by
  obtain ⟨-, rfl⟩ := call_inv hs
  by_cases hkind : c.kind = some .mem
  · have hlt := hfits .mem hkind
    rw [h.requested_mem] at hlt
    have hid : s.memId = s.bufferHandles.length := by
      rw [h.memId]
      exact Nat.mod_eq_of_lt hlt
    have hhandles : bufferHandles { s with
        handles := s.handles ++ [⟨s.made, .mem, some s.memId⟩] } =
          s.bufferHandles ++ [⟨s.made, .mem, some s.memId⟩] := by
      simp [bufferHandles]
    have hunread : unreadBuffers { s with inbox := s.inbox ++ [(s.made, c)] } =
        s.unreadBuffers ++ [s.made] := by
      simp [unreadBuffers, hkind]
    simp only [if_pos hkind]
    constructor
    · show (bufferHandles { s with handles := _ }).map Handle.call =
        s.objects .mem ++ unreadBuffers { s with inbox := _ }
      rw [hhandles, hunread, List.map_append, h.calls, List.append_assoc]
      rfl
    · intro i g hg
      change (bufferHandles { s with handles := _ })[i]? = some g at hg
      rw [hhandles, List.getElem?_append] at hg
      split at hg
      · exact h.ids i g hg
      · rename_i hi
        obtain ⟨hlast, rfl⟩ := List.getElem?_eq_some_iff.1 hg
        rw [List.length_singleton] at hlast
        have heq : i = s.memId := by omega
        subst heq
        simp
    · show (s.memId + 1) % 2 ^ 32 = (bufferHandles { s with handles := _ }).length % 2 ^ 32
      rw [hhandles, List.length_append, hid]
      rfl
  · simp only [if_neg hkind]
    refine h.congr rfl rfl ?_
    show s.objects .mem ++ unreadBuffers { s with inbox := s.inbox ++ [(s.made, c)] } = _
    simp [unreadBuffers, hkind]

lemma rest (h : s.Counted) (hs : s.Rest s') : s'.Counted := by
  refine h.congr ?_ hs.memId ?_
  · rw [bufferHandles, hs.handles, bufferHandles]
  · rw [hs.objects, unreadBuffers, hs.inbox, unreadBuffers]

/-- A buffer that is read goes from the requests to the objects. -/
lemma serve (h : s.Counted) (hs : s.serve = some s') : s'.Counted := by
  obtain ⟨call, c, inbox, -, hinbox, rfl⟩ := serve_inv hs
  refine h.congr rfl rfl ?_
  show s.create call c.kind .mem ++ unreadBuffers { s with inbox := inbox } = _
  by_cases hkind : c.kind = some .mem
  · rw [hkind, create, Function.update_self]
    simp [unreadBuffers, hinbox, hkind]
  · have hcreate : s.create call c.kind .mem = s.objects .mem := by
      cases hc : c.kind with
      | none => rfl
      | some kind =>
          have hne : ObjectKind.mem ≠ kind := by
            rintro rfl
            exact hkind hc
          rw [create, Function.update_of_ne hne]
    rw [hcreate]
    simp [unreadBuffers, hinbox, hkind]

lemma recvMessage (h : s.Counted) (hs : s.recvMessage = some s') : s'.Counted := by
  unfold HandleSession.recvMessage at hs
  split at hs
  · rename_i call c hwaiting
    split at hs
    · cases hs
      refine h.congr ?_ rfl rfl
      have hnil : (c.handles call (s.wire.take kMsgMaxSize)).filter
          (fun g => decide (g.kind = .mem)) = [] := by
        rw [List.filter_eq_nil_iff]
        intro g hg
        simpa using HandleCall.kind_of_handles g hg
      show List.filter _ (s.handles ++ c.handles call (s.wire.take kMsgMaxSize)) = _
      rw [List.filter_append, hnil, List.append_nil]
      rfl
    · cases hs
  · cases hs

lemma reply (h : s.Counted) (hs : s.reply = some s') : s'.Counted := by
  unfold HandleSession.reply at hs
  split at hs
  · cases hs
    exact h.congr rfl rfl rfl
  · cases hs

/-- A buffer's handle has the index of the buffer, or will have it. -/
lemma agrees (h : s.Counted) {g : Handle} (hg : g ∈ s.handles) (hkind : g.kind = .mem) :
    (∃ id, g.id = some id ∧ (s.objects .mem)[id]? = some g.call) ∨
      (g.call, .createBuffer) ∈ s.inbox := by
  have hmem : g ∈ s.bufferHandles := List.mem_filter.2 ⟨hg, by simpa using hkind⟩
  obtain ⟨i, hi⟩ := List.mem_iff_getElem?.1 hmem
  have hcall : (s.objects .mem ++ s.unreadBuffers)[i]? = some g.call := by
    rw [← h.calls, List.getElem?_map, hi]
    rfl
  rw [List.getElem?_append] at hcall
  split at hcall
  · exact Or.inl ⟨i, h.ids i g hi, hcall⟩
  · right
    obtain ⟨⟨call, c⟩, hx, rfl⟩ := List.mem_map.1 (List.mem_of_getElem? hcall)
    obtain ⟨hin, hc⟩ := List.mem_filter.1 hx
    have hbuffer : c = .createBuffer := by
      cases c <;> simp [HandleCall.kind] at hc ⊢
    rwa [hbuffer] at hin

end Counted

/-! ## Programs and kernels are named by their replies -/

/-- The handles of programs and kernels have the indices of their objects. -/
def Named (s : HandleSession) : Prop :=
  ∀ g ∈ s.handles, g.kind ≠ .mem →
    ∃ id, g.id = some id ∧ (s.objects g.kind)[id]? = some g.call

namespace Named

lemma call (h : s.Named) {c : HandleCall} (hs : s.call c = some s') : s'.Named := by
  obtain ⟨-, rfl⟩ := call_inv hs
  intro g hg hkind
  by_cases hc : c.kind = some .mem
  · simp only [if_pos hc] at hg
    rcases List.mem_append.1 hg with hg | hg
    · exact h g hg hkind
    · rw [List.mem_singleton.1 hg] at hkind
      exact absurd rfl hkind
  · simp only [if_neg hc] at hg
    exact h g hg hkind

lemma rest (h : s.Named) (hs : s.Rest s') : s'.Named := by
  intro g hg hkind
  rw [hs.handles] at hg
  rw [hs.objects]
  exact h g hg hkind

lemma serve (h : s.Named) (hs : s.serve = some s') : s'.Named := by
  obtain ⟨call, c, inbox, -, -, rfl⟩ := serve_inv hs
  intro g hg hkind
  obtain ⟨id, hid, hobject⟩ := h g hg hkind
  exact ⟨id, hid, objects_handle_of_some call hobject⟩

lemma reply (h : s.Named) (hs : s.reply = some s') : s'.Named := by
  unfold HandleSession.reply at hs
  split at hs
  · cases hs
    exact h
  · cases hs

lemma recvData {n : ℕ} (h : s.Named) (hs : s.recvData n = some s') : s'.Named := by
  obtain ⟨left, -, rfl⟩ := recvData_inv hs
  exact h

/-- The caller makes a handle of its own reply. -/
lemma recvMessage (h : s.Named) (haligned : s.Aligned ∨ s.Unnamed)
    (hs : s.recvMessage = some s') : s'.Named := by
  unfold HandleSession.recvMessage at hs
  split at hs
  · rename_i call c hwaiting
    split at hs
    · rename_i hready
      cases hs
      intro g hg hkind
      rcases List.mem_append.1 hg with hg | hg
      · exact h g hg hkind
      rcases haligned with haligned | hunnamed
      · simp only [Aligned, hwaiting] at haligned
        obtain ⟨hc, hasked | hanswered⟩ := haligned
        · rw [hasked.wire] at hready
          cases hready
        · obtain ⟨k, hwire, hfits, hobject⟩ := hanswered.wire
          have htake : s.wire.take kMsgMaxSize = c.reply k := by
            rw [hwire]
            exact List.take_of_length_le (HandleCall.length_reply hc k).le
          rw [htake] at hg
          obtain ⟨hgkind, -, hcall, hid⟩ := HandleCall.handles_reply hfits call g hg
          exact ⟨k, hid, hcall ▸ hobject g.kind hgkind⟩
      · rw [HandleCall.handles_of_not_named (hunnamed.waiting call c hwaiting)] at hg
        cases hg
    · cases hs
  · cases hs

end Named

/-- Every handle has the index of the object that was created for its call, but for a buffer that is
still to be created. -/
def Agrees (s : HandleSession) : Prop :=
  ∀ g ∈ s.handles, (∃ id, g.id = some id ∧ (s.objects g.kind)[id]? = some g.call) ∨
    g.kind = .mem ∧ (g.call, .createBuffer) ∈ s.inbox

lemma agrees_of_counted (hcounted : s.Counted) (hnamed : s.Named) : s.Agrees := by
  intro g hg
  by_cases hkind : g.kind = .mem
  · have hagrees := hcounted.agrees hg hkind
    rw [← hkind] at hagrees
    exact hagrees.imp_right fun hin => ⟨hkind, hin⟩
  · exact Or.inl (hnamed g hg hkind)

/-- There is an id for every object that is asked for. -/
def HasId (s : HandleSession) : HandleStep → Prop
  | .call c => ∀ kind ∈ c.kind, s.requested kind < kind.ids
  | _ => True

instance (s : HandleSession) : DecidablePred s.HasId := fun l =>
  match l with
  | .call c => inferInstanceAs (Decidable (∀ kind ∈ c.kind, s.requested kind < kind.ids))
  | .recvMessage | .recvData _ | .catcher _ _ | .serve | .exec | .ack | .reply => isTrue trivial

end HandleSession

open HandleSession

/-- Nobody asks for a program or a kernel once a blocking read has returned. -/
def Undisturbed (ls : List HandleStep) : Prop :=
  ∀ pre c post, ls = pre ++ .call c :: post → c.named = true →
    handleSession.trace readReturned HandleSession.init pre = []

lemma undisturbed_of_trace {ls : List HandleStep}
    (h : handleSession.trace readReturned HandleSession.init ls = []) : Undisturbed ls := by
  rintro pre c post rfl -
  exact handleSession.trace_eq_nil_of_append h

/-- What holds of a run so far. -/
structure HandleRun (ls : List HandleStep) (s : HandleSession) : Prop where
  counted : s.Counted
  named : s.Named
  aligned : s.Aligned ∨
    handleSession.trace readReturned HandleSession.init ls ≠ [] ∧ s.Unnamed

lemma HandleRun.step {ls : List HandleStep} {s s' : HandleSession} {l : HandleStep}
    (h : HandleRun ls s) (hls : handleSession.exec HandleSession.init ls = some s)
    (hid : s.HasId l) (hnamed : ∀ c, l = .call c → c.named = true →
      handleSession.trace readReturned HandleSession.init ls = [])
    (hs : handleSession.step s l = some s') : HandleRun (ls ++ [l]) s' := by
  have htrace := handleSession.trace_snoc readReturned l hls
  -- A step at which no read returns keeps the alignment, or what there is instead of it.
  have hkeep : (s.Aligned → s'.Aligned) →
      (handleSession.trace readReturned HandleSession.init ls ≠ [] → s.Unnamed → s'.Unnamed) →
      s'.Aligned ∨ handleSession.trace readReturned HandleSession.init (ls ++ [l]) ≠ [] ∧
        s'.Unnamed := by
    intro haligned hunnamed
    refine h.aligned.imp haligned fun hafter => ⟨?_, hunnamed hafter.1 hafter.2⟩
    rw [htrace]
    exact List.append_ne_nil_of_left_ne_nil hafter.1 _
  cases l with
  | call c =>
      refine ⟨h.counted.call hid hs, h.named.call hs,
        hkeep (fun ha => ha.call hid hs) fun hne hu => hu.call ?_ hs⟩
      by_contra hc
      exact hne (hnamed c rfl (by simpa using hc))
  | recvMessage =>
      exact ⟨h.counted.recvMessage hs, h.named.recvMessage (h.aligned.imp_right And.right) hs,
        hkeep (fun ha => ha.recvMessage hs) fun _ hu => hu.recvMessage hs⟩
  | recvData n =>
      refine ⟨?_, h.named.recvData hs, ?_⟩
      · obtain ⟨left, -, rfl⟩ := recvData_inv hs
        exact h.counted.congr rfl rfl rfl
      · rcases h.aligned with ha | ⟨hne, hu⟩
        · obtain ⟨hunnamed, haligned⟩ := ha.recvData hs
          by_cases hreturned : s.readReturned (.recvData n) = []
          · exact Or.inl (haligned hreturned)
          · rw [htrace]
            exact Or.inr ⟨List.append_ne_nil_of_right_ne_nil _ hreturned, hunnamed⟩
        · rw [htrace]
          exact Or.inr ⟨List.append_ne_nil_of_left_ne_nil hne _, hu.recvData hs⟩
  | catcher i n =>
      have hrest := catcher_inv hs
      exact ⟨h.counted.rest hrest, h.named.rest hrest,
        hkeep (fun ha => ha.rest hrest) fun _ hu => hu.rest hrest⟩
  | serve =>
      exact ⟨h.counted.serve hs, h.named.serve hs,
        hkeep (fun ha => ha.serve hs) fun _ hu => hu.serve hs⟩
  | exec =>
      have hrest := exec_inv hs
      exact ⟨h.counted.rest hrest, h.named.rest hrest,
        hkeep (fun ha => ha.rest hrest) fun _ hu => hu.rest hrest⟩
  | ack =>
      have hrest := ack_inv hs
      exact ⟨h.counted.rest hrest, h.named.rest hrest,
        hkeep (fun ha => ha.rest hrest) fun _ hu => hu.rest hrest⟩
  | reply =>
      exact ⟨h.counted.reply hs, h.named.reply hs,
        hkeep (fun ha => ha.reply hs) fun _ hu => hu.reply hs⟩

lemma handleRun_init : HandleRun [] HandleSession.init where
  counted := ⟨rfl, by simp [bufferHandles, HandleSession.init], rfl⟩
  named := by simp [Named, HandleSession.init]
  aligned := Or.inl ⟨by simp [HandleSession.init], rfl, rfl⟩

/-- In a run in which nobody asks for a program or a kernel after a blocking read has returned, and
in which there is an id for every object, each handle has the index of the object that was created
for it. -/
theorem handles_agree {ls : List HandleStep} {s : HandleSession}
    (h : handleSession.exec HandleSession.init ls = some s) (hreads : Undisturbed ls)
    (hids : handleSession.AllSteps HandleSession.HasId HandleSession.init ls) : s.Agrees := by
  have hrun : HandleRun ls s := by
    refine handleSession.exec_induction (P := fun ls s => Undisturbed ls →
      handleSession.AllSteps HandleSession.HasId HandleSession.init ls → HandleRun ls s)
      (fun _ _ => handleRun_init) ?_ h hreads hids
    intro ls s l s' hls ih hs hreads hids
    obtain ⟨hids, hid⟩ := handleSession.allSteps_snoc_iff.1 hids
    have hbefore : Undisturbed ls := by
      rintro pre c post rfl hc
      exact hreads pre c (post ++ [l]) (by simp) hc
    refine (ih hbefore hids).step hls (hid s hls) (fun c hl hc => ?_) hs
    subst hl
    exact hreads ls c [] rfl hc
  exact agrees_of_counted hrun.counted hrun.named

/-- A buffer, a program, the release of the buffer, a kernel and another buffer. -/
def createAndRelease : List HandleStep :=
  [.call .createBuffer, .call .createProgramWithSource, .serve, .serve, .recvMessage,
    .call .releaseMemObject, .call .createKernel, .serve, .serve, .recvMessage,
    .call .createBuffer, .serve]

/-- Each has its own id. -/
theorem createAndRelease_agrees :
    ∃ s, handleSession.exec HandleSession.init createAndRelease = some s ∧ s.Agrees ∧
      s.handles = [⟨0, .mem, some 0⟩, ⟨1, .program, some 0⟩, ⟨3, .kernel, some 0⟩,
        ⟨4, .mem, some 1⟩] := by
  have hrun : (handleSession.exec HandleSession.init createAndRelease).map HandleSession.handles =
      some [⟨0, .mem, some 0⟩, ⟨1, .program, some 0⟩, ⟨3, .kernel, some 0⟩,
        ⟨4, .mem, some 1⟩] := by decide +kernel
  obtain ⟨s, hs, hhandles⟩ := Option.map_eq_some_iff.1 hrun
  exact ⟨s, hs, handles_agree hs (undisturbed_of_trace (by decide +kernel))
    (handleSession.allSteps_of_checkSteps (by decide +kernel)), hhandles⟩

/-- Three reads of a buffer between two programs: a blocking one takes four of the ten bytes that
are meant for the catcher of the first, and the third read's catcher takes two more, whose
acknowledgement lets the worker go on. -/
def readsBetweenPrograms : List HandleStep :=
  [.call .createBuffer, .serve, .call .createProgramWithSource, .serve, .recvMessage,
    .call (.enqueueReadBuffer false (List.replicate 10 1)), .serve, .exec,
    .call (.enqueueReadBuffer true (List.replicate 4 2)), .recvData 4,
    .call (.enqueueReadBuffer false (List.replicate 2 3)), .catcher 1 2, .ack,
    .serve, .exec, .reply, .serve,
    .call .createProgramWithSource, .serve, .recvMessage]

/-- The caller finds the reply to the blocking read in place of the id of its second program, and
takes it for the first. -/
theorem misread_program :
    ∃ s, handleSession.exec HandleSession.init readsBetweenPrograms = some s ∧ ¬ s.Agrees := by
  have hrun : (handleSession.exec HandleSession.init readsBetweenPrograms).map (fun s =>
      (s.handles, s.objects .program)) =
        some ([⟨0, .mem, some 0⟩, ⟨1, .program, some 0⟩, ⟨5, .program, some 0⟩], [1, 5]) := by
    decide +kernel
  obtain ⟨s, hs, hstate⟩ := Option.map_eq_some_iff.1 hrun
  obtain ⟨hhandles, hobjects⟩ := Prod.mk.inj hstate
  refine ⟨s, hs, fun hagrees => ?_⟩
  have hmem : (⟨5, .program, some 0⟩ : Handle) ∈ s.handles := by
    rw [hhandles]
    simp
  rcases hagrees _ hmem with ⟨id, hid, hobject⟩ | ⟨hkind, -⟩
  · cases hid
    rw [hobjects] at hobject
    cases hobject
  · cases hkind

end ElasticFramework
