import ElasticFramework.Construction.Transfers

/-!
# Wake-ups of blocking transfers

A condition variable does not remember a signal.  A handler that has pushed its command and has yet
to wait misses the signal if the worker is quick enough, and waits for good, since there is only
one (`Transfer.Lost`).  `no_lost_wakeup` is for runs in which the handler waits when the signal
comes, and does not wake up before; then its reply also has the error code that the OpenCL call
returned.  That a write signals before it stores the error code is of no consequence: an error ends
the process, so the code that the command is created with is the one that will be stored.
-/

namespace ElasticFramework

/-- The handler is past its wait. -/
def HandlerAt.past : HandlerAt → Bool
  | through | replied _ => true
  | _ => false

/-- The error code the worker has in hand. -/
def WorkerAt.errCode : WorkerAt → Option ℤ
  | idle => none
  | called errCode _ | between errCode | done errCode => some errCode

namespace Transfer

variable {s s' : Transfer}

/-- The worker has signalled. -/
def signalled (s : Transfer) : Bool :=
  match s.isWrite, s.worker with
  | true, .between _ => true
  | _, .done _ => true
  | _, _ => false

/-- The error code of the last OpenCL call, once all have been made. -/
def returned (s : Transfer) : Option ℤ :=
  match s.worker with
  | .called errCode 0 | .between errCode | .done errCode => some errCode
  | _ => none

/-- The signal has been given and the handler waits, or will wait, for it. -/
def Lost (s : Transfer) : Prop :=
  s.signalled = true ∧ (s.handler = .pushed ∨ s.handler = .waiting)

/-- The handler has not missed its signal, and answers with the error code that was returned. -/
def Sound (s : Transfer) : Prop :=
  ¬ s.Lost ∧ ∀ errCode, s.handler = .replied errCode → s.returned = some errCode

/-- The signal finds the handler waiting, and nothing else wakes it. -/
def OnTime (s : Transfer) : TransferStep → Prop
  | .signal => s.handler = .waiting
  | .wakeUp => False
  | _ => True

instance (s : Transfer) : DecidablePred s.OnTime := fun l =>
  match l with
  | .signal => inferInstanceAs (Decidable (s.handler = .waiting))
  | .wakeUp => isFalse id
  | .push | .wait | .call _ | .setErrCode | .reply => isTrue trivial

/-- What holds between the two threads. -/
structure Kept (s : Transfer) : Prop where
  /-- Calls that have returned have succeeded. -/
  worker : ∀ errCode ∈ s.worker.errCode, errCode = clSuccess
  errCode : s.errCode = clSuccess
  replied : ∀ errCode, s.handler = .replied errCode → errCode = clSuccess
  /-- The handler is past its wait exactly when the worker has signalled. -/
  signal : s.signalled = s.handler.past

lemma move_of_step {l : TransferStep} (hs : transfer.step s l = some s') : s.move l = some s' := by
  simp only [transfer] at hs
  split at hs
  · cases hs
  · exact hs

namespace Kept

/-- The handler goes on without passing its wait, or after it has. -/
lemma move (h : s.Kept) {handler : HandlerAt} (hpast : handler.past = s.handler.past)
    (hreplied : ∀ errCode, handler = .replied errCode → errCode = clSuccess) :
    Kept { s with handler := handler } where
  worker := h.worker
  errCode := h.errCode
  replied := hreplied
  signal := h.signal.trans hpast.symm

lemma push (h : s.Kept) (hs : s.push = some s') : s'.Kept := by
  unfold Transfer.push at hs
  split at hs
  · rename_i hstart
    cases hs
    exact h.move (by rw [hstart]; rfl) fun errCode heq => by cases heq
  · cases hs

lemma wait (h : s.Kept) (hs : s.wait = some s') : s'.Kept := by
  unfold Transfer.wait at hs
  split at hs
  · rename_i hpushed
    cases hs
    exact h.move (by rw [hpushed]; rfl) fun errCode heq => by cases heq
  · cases hs

/-- The reply has the error code that the command has. -/
lemma reply (h : s.Kept) (hs : s.reply = some s') : s'.Kept := by
  unfold Transfer.reply at hs
  split at hs
  · rename_i hthrough
    cases hs
    refine h.move (by rw [hthrough]; rfl) fun errCode heq => ?_
    rw [← HandlerAt.replied.inj heq]
    exact h.errCode
  · cases hs

/-- A worker that has more to do has not signalled. -/
lemma call {errCode : ℤ} (h : s.Kept) (hs : s.call errCode = some s') : s'.Kept := by
  have hcalled : ∀ left, errCode = clSuccess → s.signalled = false →
      Kept { s with worker := .called errCode left } := by
    intro left hsuccess hsignal
    refine ⟨fun code hcode => ?_, h.errCode, h.replied, ?_⟩
    · rw [← Option.some.inj hcode]
      exact hsuccess
    · rw [← h.signal, hsignal]
      simp [signalled]
  have hdown : Kept { s with down := true } := ⟨h.worker, h.errCode, h.replied, h.signal⟩
  unfold Transfer.call at hs
  split at hs
  · cases hs
  · rename_i hworker _
    split at hs
    · rename_i hsuccess
      cases hs
      exact hcalled _ hsuccess (by simp [signalled, hworker])
    · cases hs
      exact hdown
  · rename_i hworker _
    split at hs
    · rename_i hsuccess
      cases hs
      exact hcalled _ hsuccess (by simp [signalled, hworker])
    · cases hs
      exact hdown
  · cases hs

/-- The handler waits and is let through. -/
lemma signal_step (h : s.Kept) (hwaiting : s.handler = .waiting) (hs : s.signal = some s') :
    s'.Kept := by
  have hwake : s.wake = { s with handler := .through } := by
    unfold wake
    rw [hwaiting]
  unfold Transfer.signal at hs
  rw [hwake] at hs
  split at hs
  · rename_i code hwrite hworker
    cases hs
    exact ⟨fun code' hcode => h.worker code' (by rw [hworker]; exact hcode), h.errCode,
      fun code' heq => (by cases heq), by simp [signalled, hwrite, HandlerAt.past]⟩
  · rename_i code hread hworker
    cases hs
    exact ⟨fun code' hcode => h.worker code' (by rw [hworker]; exact hcode), h.errCode,
      fun code' heq => (by cases heq), by simp [signalled, HandlerAt.past]⟩
  · cases hs

/-- The error code is the one the command has had from the start. -/
lemma setErrCode (h : s.Kept) (hs : s.setErrCode = some s') : s'.Kept := by
  unfold Transfer.setErrCode at hs
  split at hs
  · rename_i code hwrite hworker
    cases hs
    refine ⟨fun code' hcode => h.worker code' (by rw [hworker]; exact hcode),
      h.worker code (by rw [hworker]; rfl), h.replied, ?_⟩
    rw [← h.signal]
    simp [signalled, hwrite, hworker]
  · rename_i code hread hworker
    cases hs
    refine ⟨fun code' hcode => h.worker code' (by rw [hworker]; exact hcode),
      h.worker code (by rw [hworker]; rfl), h.replied, ?_⟩
    rw [← h.signal]
    simp [signalled, hread, hworker]
  · cases hs

lemma init (isWrite : Bool) (moreCalls : ℕ) : (Transfer.init isWrite moreCalls).Kept where
  worker := by simp [Transfer.init, WorkerAt.errCode]
  errCode := rfl
  replied := by simp [Transfer.init]
  signal := by simp [signalled, Transfer.init, HandlerAt.past]

lemma step {l : TransferStep} (h : s.Kept) (hl : s.OnTime l) (hs : transfer.step s l = some s') :
    s'.Kept := by
  replace hs := move_of_step hs
  cases l with
  | push => exact h.push hs
  | wait => exact h.wait hs
  | call errCode => exact h.call hs
  | signal => exact h.signal_step hl hs
  | setErrCode => exact h.setErrCode hs
  | wakeUp => exact hl.elim
  | reply => exact h.reply hs

/-- A handler that is let through has not missed its signal. -/
lemma sound (h : s.Kept) : s.Sound := by
  constructor
  · rintro ⟨hsignal, hhandler⟩
    rw [h.signal] at hsignal
    rcases hhandler with hhandler | hhandler
    · rw [hhandler] at hsignal
      cases hsignal
    · rw [hhandler] at hsignal
      cases hsignal
  · intro errCode hreplied
    have hsignal : s.signalled = true := by
      rw [h.signal, hreplied]
      rfl
    have hcode := h.worker
    rw [h.replied errCode hreplied]
    unfold signalled at hsignal
    split at hsignal
    · rename_i code _ hworker
      rw [returned, hworker]
      exact congrArg some (hcode code (by rw [hworker]; rfl))
    · rename_i code hworker
      rw [returned, hworker]
      exact congrArg some (hcode code (by rw [hworker]; rfl))
    · cases hsignal

end Kept

/-! ## A signal that is missed -/

/-- Nobody but the scheduler's whim lets the handler go on once the signal is lost. -/
lemma Lost.step {l : TransferStep} (h : s.Lost) (hl : l ≠ .wakeUp)
    (hs : transfer.step s l = some s') : s'.Lost := by
  obtain ⟨hsignal, hhandler⟩ := h
  replace hs := move_of_step hs
  cases l with
  | wakeUp => exact absurd rfl hl
  | push =>
      change s.push = some s' at hs
      unfold Transfer.push at hs
      rcases hhandler with hhandler | hhandler <;> simp [hhandler] at hs
  | reply =>
      change s.reply = some s' at hs
      unfold Transfer.reply at hs
      rcases hhandler with hhandler | hhandler <;> simp [hhandler] at hs
  | wait =>
      change s.wait = some s' at hs
      unfold Transfer.wait at hs
      split at hs
      · cases hs
        exact ⟨hsignal, Or.inr rfl⟩
      · cases hs
  | call errCode =>
      change s.call errCode = some s' at hs
      unfold Transfer.call at hs
      split at hs
      · cases hs
      · rename_i hworker _
        simp [signalled, hworker] at hsignal
      · rename_i hworker _
        simp [signalled, hworker] at hsignal
      · cases hs
  | signal =>
      change s.signal = some s' at hs
      unfold Transfer.signal at hs
      split at hs
      · rename_i hworker
        simp [signalled, hworker] at hsignal
      · rename_i hread hworker
        simp [signalled, hread, hworker] at hsignal
      · cases hs
  | setErrCode =>
      change s.setErrCode = some s' at hs
      unfold Transfer.setErrCode at hs
      split at hs
      · cases hs
        exact ⟨by simp [signalled], hhandler⟩
      · rename_i hworker
        simp [signalled, hworker] at hsignal
      · cases hs

/-- A handler that has missed its signal stays where it is, if it does not wake up for no reason. -/
theorem Lost.for_good {ls : List TransferStep} (h : s.Lost) (hls : ∀ l ∈ ls, l ≠ .wakeUp)
    (hs : transfer.exec s ls = some s') : s'.Lost :=
  transfer.invariant_of_allSteps h (fun _ _ _ hlost hl hstep => hlost.step hl hstep)
    (transfer.allSteps_of_forall_mem fun l hl _ => hls l hl) hs

end Transfer

/-- When the signal finds the handler waiting, it is not lost, and the reply has the error code
that was returned. -/
theorem no_lost_wakeup {isWrite : Bool} {moreCalls : ℕ} {ls : List TransferStep} {s : Transfer}
    (h : transfer.exec (Transfer.init isWrite moreCalls) ls = some s)
    (honTime : transfer.AllSteps Transfer.OnTime (Transfer.init isWrite moreCalls) ls) :
    s.Sound :=
  (transfer.invariant_of_allSteps (Transfer.Kept.init isWrite moreCalls)
    (fun _ _ _ hs hl hstep => hs.step hl hstep) honTime h).sound

/-- A write to two devices. -/
def writeInTime : List TransferStep :=
  [.push, .wait, .call 0, .call 0, .signal, .reply, .setErrCode]

/-- Its caller is answered. -/
theorem writeInTime_sound :
    ∃ s, transfer.exec (Transfer.init true 1) writeInTime = some s ∧ s.Sound ∧
      s.handler = .replied 0 := by
  have hrun : (transfer.exec (Transfer.init true 1) writeInTime).map Transfer.handler =
      some (.replied 0) := by decide
  obtain ⟨s, hs, hhandler⟩ := Option.map_eq_some_iff.1 hrun
  exact ⟨s, hs, no_lost_wakeup hs (transfer.allSteps_of_checkSteps (by decide)), hhandler⟩

/-- The worker has read and signalled before the handler waits. -/
def readTooSoon : List TransferStep := [.push, .call 0, .setErrCode, .signal, .wait]

/-- The handler waits, and there is no signal to come. -/
theorem lost_wakeup :
    ∃ s, transfer.exec (Transfer.init false 0) readTooSoon = some s ∧ ¬ s.Sound := by
  have hrun : (transfer.exec (Transfer.init false 0) readTooSoon).map
      (fun s => (s.signalled, s.handler)) = some (true, .waiting) := by decide
  obtain ⟨s, hs, hstate⟩ := Option.map_eq_some_iff.1 hrun
  obtain ⟨hsignal, hhandler⟩ := Prod.mk.inj hstate
  exact ⟨s, hs, fun hsound => hsound.1 ⟨hsignal, Or.inr hhandler⟩⟩

end ElasticFramework
