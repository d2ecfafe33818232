import ElasticFramework.Construction.System

/-!
# What a move of the compute node does

`Step` lists, for each label, the condition under which the move is enabled and the state it
leads to, with the program counter and the lock read off as equations.  `step_inv` says that
`step` does nothing else.  Every invariant of the system is a case analysis on `Step`; no proof
after this file unfolds `step`.
-/

namespace ElasticFramework

variable {K W T : Type*} [Arith K] [DecidableEq W] [DecidableEq T]

/-- The moves of the system, one constructor a label. -/
inductive Step (s : State K W T) : Label K W T → State K W T → Prop
  | connect {t weight} (hpc : s.session t = .absent) (hlock : s.procLock = none) :
      Step s (.connect t weight)
        ((s.withNode (s.node.createVM weight)).enter t (.connected s.node.nextVM))
  | createQueue {t v} (hpc : s.session t = .connected v) (hlock : s.procLock = none) :
      Step s (.createQueue t)
        ((s.withNode (s.node.createQueue v)).enter t (.created v s.node.nextQueue))
  | bindDev {t dev v q} (hpc : s.session t = .created v q) :
      Step s (.bindDev t dev) ((s.withNode (s.node.setBindingDev q dev)).enter t (.serving v q))
  | push {t kind v q} (hpc : s.session t = .serving v q) (hkind : kind ≠ .finish) :
      Step s (.push t kind) (s.pushNew q kind)
  | finish {t v q} (hpc : s.session t = .serving v q) :
      Step s (.finish t) ((s.pushNew q .finish).enter t (.finishing v q s.nextPtr))
  | passWait {t v q p} (hpc : s.session t = .finishing v q p) (hsem : s.finishSem p ≠ 0) :
      Step s (.passWait t)
        ({ s with finishSem := Function.update s.finishSem p (s.finishSem p - 1) }.enter t
          (.serving v q))
  | seeEmpty {t v q} (hpc : s.session t = .serving v q) (hempty : (s.node.que q).queue = []) :
      Step s (.seeEmpty t) (s.enter t (.drained v q))
  | teardown {t v q} (hpc : s.session t = .drained v q) (hlock : s.procLock = none) :
      Step s (.teardown t)
        ((s.withNode ((s.node.destroyQueue q).destroyVM v).2).enter t .closed)
  | take {w} (hpc : s.worker w = .waiting) (hsem : s.node.sem ≠ 0) :
      Step s (.take w) ((s.withNode { s.node with sem := s.node.sem - 1 }).goto w .holding)
  | check {w} (hpc : s.worker w = .holding) :
      Step s (.check w) (s.goto w (if s.node.check w then .admitted else .refused))
  | giveBack {w} (hpc : s.worker w = .refused) :
      Step s (.giveBack w) ((s.withNode s.node.increase).goto w .waiting)
  | pick {w q comm rest} (hpc : s.worker w = .admitted) (hlock : s.procLock = none)
      (hq : s.node.inOrderSchedule = some q) (hfront : (s.node.que q).queue = comm :: rest) :
      Step s (.pick w) ((s.withNode (s.node.setSkip q true)).goto w (.picked q comm))
  | beginExec {w q comm} (hpc : s.worker w = .picked q comm) :
      Step s (.beginExec w) ((s.exec comm).goto w (.executing q comm))
  | endExec {w q comm usedTime} (hpc : s.worker w = .executing q comm) :
      Step s (.endExec w usedTime) (s.goto w (.executed q comm usedTime))
  | account {w q comm usedTime} (hpc : s.worker w = .executed q comm usedTime)
      (hlock : s.procLock = none) :
      Step s (.account w)
        ({ s.withNode (s.node.account q usedTime) with procLock := some w }.goto w (.accounted q))
  | pop {w q} (hpc : s.worker w = .accounted q) :
      Step s (.pop w) ((s.withNode (s.node.pop q)).goto w (.popped q))
  | testEmpty {w q} (hpc : s.worker w = .popped q) (hempty : (s.node.que q).queue = []) :
      Step s (.test w) (s.goto w (.tested q false))
  | testNonempty {w q} (hpc : s.worker w = .popped q) (hempty : (s.node.que q).queue ≠ []) :
      Step s (.test w) ((s.withNode s.node.increase).goto w (.tested q true))
  | clearSkip {w q b} (hpc : s.worker w = .tested q b) :
      Step s (.clearSkip w)
        ({ s.withNode (s.node.setSkip q false) with procLock := none }.goto w .waiting)

lemma stepSession_inv {s s' : State K W T} {l : Label K W T} (h : stepSession s l = some s') :
    Step s l s' := by
  cases l with
  | connect t weight =>
      simp only [stepSession] at h
      split at h
      · split at h
        · cases h
          exact .connect ‹_› ‹_›
        · cases h
      · cases h
  | createQueue t =>
      simp only [stepSession] at h
      split at h
      · split at h
        · cases h
          exact .createQueue ‹_› ‹_›
        · cases h
      · cases h
  | bindDev t dev =>
      simp only [stepSession] at h
      split at h
      · cases h
        exact .bindDev ‹_›
      · cases h
  | push t kind =>
      simp only [stepSession] at h
      split at h
      · split at h
        · cases h
        · cases h
          exact .push ‹_› ‹_›
      · cases h
  | finish t =>
      simp only [stepSession] at h
      split at h
      · cases h
        exact .finish ‹_›
      · cases h
  | passWait t =>
      simp only [stepSession] at h
      split at h
      · split at h
        · cases h
        · cases h
          exact .passWait ‹_› ‹_›
      · cases h
  | seeEmpty t =>
      simp only [stepSession] at h
      split at h
      · split at h
        · rename_i hempty
          cases h
          exact .seeEmpty ‹_› (List.isEmpty_iff.1 hempty)
        · cases h
      · cases h
  | teardown t =>
      simp only [stepSession] at h
      split at h
      · split at h
        · cases h
          exact .teardown ‹_› ‹_›
        · cases h
      · cases h
  | _ => cases h

lemma stepWorker_inv {s s' : State K W T} {l : Label K W T} (h : stepWorker s l = some s') :
    Step s l s' := by
  cases l with
  | take w =>
      simp only [stepWorker, Node.waitAndDecrease] at h
      split at h
      · split at h
        · cases h
        · cases h
          exact .take ‹_› ‹_›
      · cases h
  | check w =>
      simp only [stepWorker] at h
      split at h
      · cases h
        exact .check ‹_›
      · cases h
  | giveBack w =>
      simp only [stepWorker] at h
      split at h
      · cases h
        exact .giveBack ‹_›
      · cases h
  | pick w =>
      simp only [stepWorker] at h
      split at h
      · split at h
        · cases h
        · split at h
          · cases h
          · cases h
            exact .pick ‹_› ‹_› ‹_› ‹_›
      · cases h
  | beginExec w =>
      simp only [stepWorker] at h
      split at h
      · cases h
        exact .beginExec ‹_›
      · cases h
  | endExec w usedTime =>
      simp only [stepWorker] at h
      split at h
      · cases h
        exact .endExec ‹_›
      · cases h
  | account w =>
      simp only [stepWorker] at h
      split at h
      · cases h
        exact .account ‹_› ‹_›
      · cases h
  | pop w =>
      simp only [stepWorker] at h
      split at h
      · cases h
        exact .pop ‹_›
      · cases h
  | test w =>
      simp only [stepWorker] at h
      split at h
      · split at h
        · rename_i hempty
          cases h
          exact .testEmpty ‹_› (List.isEmpty_iff.1 hempty)
        · rename_i hempty
          cases h
          exact .testNonempty ‹_› fun h => hempty (List.isEmpty_iff.2 h)
      · cases h
  | clearSkip w =>
      simp only [stepWorker] at h
      split at h
      · cases h
        exact .clearSkip ‹_›
      · cases h
  | _ => cases h

/-- A move is one of the cases of `Step`. -/
theorem step_inv {s s' : State K W T} {l : Label K W T} (h : step s l = some s') :
    Step s l s' := by
  rcases Option.or_eq_some_iff.1 h with h | ⟨-, h⟩
  · exact stepSession_inv h
  · exact stepWorker_inv h

/-- Each case of `Step` is a move. -/
lemma Step.step_eq {s s' : State K W T} {l : Label K W T} (h : Step s l s') :
    step s l = some s' := by
  cases h <;> simp [step, stepSession, stepWorker, CommandQueue.isEmpty, Node.waitAndDecrease, *]

/-- With a queue to hand out and the scheduler lock free, an admitted worker gets the queue. -/
lemma step_pick {s : State K W T} {w : W} {q : ℕ} {comm : Command K} {rest : List (Command K)}
    (hpc : s.worker w = .admitted) (hlock : s.procLock = none)
    (hq : s.node.inOrderSchedule = some q) (hfront : (s.node.que q).queue = comm :: rest) :
    step s (.pick w) = some ((s.withNode (s.node.setSkip q true)).goto w (.picked q comm)) :=
  Step.step_eq (.pick hpc hlock hq hfront)

end ElasticFramework
