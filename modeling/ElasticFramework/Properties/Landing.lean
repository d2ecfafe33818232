import ElasticFramework.Construction.Catchers

/-!
# Where non-blocking reads land

A catcher is done when it has as many bytes as were asked for; whether these are the bytes of its
own read is up to the scheduler.  `reads_land` says that they are as long as the catchers take
turns: bytes are only received by the oldest catcher that is not done, and every read transfers
something that an `unsigned int` counts.  Then one read is in flight at a time (`Landing`).

Nothing in the client makes the catchers take turns, and `swapped_reads` is what happens when two
of them do not.
-/

namespace ElasticFramework

/-- Nobody moves until the client asks for another read. -/
def ReadSession.AtRest (s : ReadSession) : Prop :=
  ∀ l, (∀ data, l ≠ .enqueueReadBuffer data) → readSession.step s l = none

/-- A catcher that has as many bytes as it wants has those of its own read, and when nobody moves
any more every catcher has. -/
def ReadSession.Landed (s : ReadSession) : Prop :=
  (∀ r ∈ s.reads, r.left = 0 → r.dest = r.data) ∧ (s.AtRest → ∀ r ∈ s.reads, r.dest = r.data)

/-- A read asks for a number of bytes that can be sent, and bytes are received in turn. -/
def ReadSession.InTurn (s : ReadSession) : ReadStep → Prop
  | .enqueueReadBuffer data => 0 < data.length ∧ data.length < 2 ^ 32
  | .receive i _ => ∀ r ∈ s.reads.take i, r.left = 0
  | _ => True

instance (s : ReadSession) : DecidablePred s.InTurn := fun l =>
  match l with
  | .enqueueReadBuffer _ => inferInstanceAs (Decidable (_ ∧ _))
  | .receive i _ => inferInstanceAs (Decidable (∀ r ∈ s.reads.take i, r.left = 0))
  | .exec | .acknowledge _ | .resume => isTrue trivial

/-! ## Positions -/

section Positions

variable {α : Type*} {pre post : List α} {a b x : α} {i : ℕ}

lemma getElem?_length_append : (pre ++ a :: post)[pre.length]? = some a := by
  simp

lemma set_length_append : (pre ++ a :: post).set pre.length b = pre ++ b :: post := by
  simp

/-- An entry is in front of `a`, is `a`, or is behind it. -/
lemma getElem?_append_cons_cases (h : (pre ++ a :: post)[i]? = some x) :
    x ∈ pre ∨ i = pre.length ∧ x = a ∨ pre.length < i ∧ x ∈ post := by
  rw [List.getElem?_append] at h
  split at h
  · exact Or.inl (List.mem_of_getElem? h)
  · rename_i hi
    rw [List.getElem?_cons] at h
    split at h
    · rename_i hzero
      exact Or.inr (Or.inl ⟨by omega, (Option.some.inj h).symm⟩)
    · rename_i hpos
      exact Or.inr (Or.inr ⟨by omega, List.mem_of_getElem? h⟩)

lemma mem_take_append_cons (hi : pre.length < i) : a ∈ (pre ++ a :: post).take i := by
  rw [List.mem_take_iff_getElem]
  exact ⟨pre.length, by simp [hi], by simp⟩

end Positions

/-! ## One read in flight -/

namespace PendingRead

/-- The read is over. -/
structure Landed (r : PendingRead) : Prop where
  dest : r.dest = r.data
  acked : r.acked = true

/-- The read has not been executed. -/
structure Fresh (r : PendingRead) : Prop where
  dest : r.dest = []
  acked : r.acked = false

/-- The length of the data is what travels. -/
def Sized (r : PendingRead) : Prop := 0 < r.data.length ∧ r.data.length < 2 ^ 32

lemma Sized.size {r : PendingRead} (h : r.Sized) : r.size = r.data.length := Nat.mod_eq_of_lt h.2

/-- What the catcher does not have is under way. -/
lemma Sized.left_eq {r : PendingRead} (h : r.Sized) {wire : List UInt8}
    (hdata : r.dest ++ wire = r.data) : r.left = wire.length := by
  have hlength := congrArg List.length hdata
  rw [List.length_append] at hlength
  rw [PendingRead.left, h.size]
  omega

lemma Landed.left {r : PendingRead} (h : r.Landed) : r.left = 0 := by
  have hle : r.size ≤ r.data.length := Nat.mod_le _ _
  rw [PendingRead.left, h.dest]
  omega

end PendingRead

/-- The reads are over up to some point and not executed from there on, but for one that may be in
flight: what its catcher does not have is on the socket. -/
inductive Landing : ReadSession → Prop
  | idle (pre post : List PendingRead) (hpre : ∀ r ∈ pre, r.Landed)
      (hpost : ∀ r ∈ post, r.Fresh) :
      Landing ⟨pre ++ post, pre.length, false, [], 0⟩
  | flight (pre : List PendingRead) (r : PendingRead) (post : List PendingRead) (wire : List UInt8)
      (hpre : ∀ r ∈ pre, r.Landed) (hpost : ∀ r ∈ post, r.Fresh) (hdata : r.dest ++ wire = r.data)
      (hacked : r.acked = true → wire = []) :
      Landing ⟨pre ++ r :: post, pre.length + 1, true, wire, if r.acked then 1 else 0⟩

namespace Landing

variable {s s' : ReadSession}

lemma enqueueReadBuffer (h : Landing s) (data : List UInt8) :
    Landing (s.enqueueReadBuffer data) := by
  have hsnoc : ∀ post : List PendingRead, (∀ r ∈ post, r.Fresh) →
      ∀ r ∈ post ++ [⟨data, [], false⟩], r.Fresh := by
    intro post hpost r hr
    rcases List.mem_append.1 hr with hr | hr
    · exact hpost r hr
    · rw [List.mem_singleton.1 hr]
      exact ⟨rfl, rfl⟩
  cases h with
  | idle pre post hpre hpost =>
      have hidle := Landing.idle pre _ hpre (hsnoc post hpost)
      rwa [← List.append_assoc] at hidle
  | flight pre r post wire hpre hpost hdata hacked =>
      have hflight := Landing.flight pre r _ wire hpre (hsnoc post hpost) hdata hacked
      rwa [← List.cons_append, ← List.append_assoc] at hflight

/-- The next read takes off, with all of its data on the socket. -/
lemma exec (h : Landing s) (hsized : ∀ r ∈ s.reads, r.Sized) (hs : s.exec = some s') :
    Landing s' := by
  cases h with
  | flight pre r post wire hpre hpost hdata hacked => cases hs
  | idle pre post hpre hpost =>
      cases post with
      | nil =>
          simp [ReadSession.exec] at hs
      | cons r post =>
          have hr : r.Sized := hsized r (by simp)
          obtain ⟨hdest, hacked⟩ := hpost r (List.mem_cons_self ..)
          have hflight := Landing.flight pre r post r.data hpre
            (fun r hr => hpost r (List.mem_cons_of_mem _ hr)) (by rw [hdest, List.nil_append])
            (fun hacked' => by rw [hacked] at hacked'; cases hacked')
          have hpos : r.data.length ≠ 0 := by
            have := hr.1
            omega
          simp only [ReadSession.exec, getElem?_length_append, hr.size, if_neg hpos,
            List.take_length, List.nil_append, Option.some.injEq] at hs
          subst hs
          simpa [hacked] using hflight

/-- The read in flight receives bytes of its own, and nobody else does. -/
lemma receive {i n : ℕ} (h : Landing s) (hsized : ∀ r ∈ s.reads, r.Sized)
    (hturn : ∀ r ∈ s.reads.take i, r.left = 0) (hs : s.receive i n = some s') : Landing s' := by
  unfold ReadSession.receive at hs
  split at hs
  · rename_i x hx
    split at hs
    · rename_i hn
      obtain ⟨hpos, hleft, hwire⟩ := hn
      cases hs
      cases h with
      | idle pre post hpre hpost =>
          simp only [List.length_nil] at hwire
          omega
      | flight pre r post wire hpre hpost hdata hacked =>
          have hr : r.Sized := hsized r (by simp)
          rcases getElem?_append_cons_cases hx with hmem | ⟨rfl, rfl⟩ | ⟨hi, -⟩
          · -- A read that is over wants nothing.
            have hzero := (hpre x hmem).left
            omega
          · rw [set_length_append]
            refine Landing.flight pre { x with dest := x.dest ++ wire.take n } post (wire.drop n)
              hpre hpost ?_ fun hacked' => ?_
            · rw [List.append_assoc, List.take_append_drop]
              exact hdata
            · rw [hacked hacked', List.drop_nil]
          · -- It is not the turn of a read behind the one in flight.
            have hzero := hturn r (mem_take_append_cons hi)
            rw [hr.left_eq hdata] at hzero
            simp only at hwire
            omega
    · cases hs
  · cases hs

/-- The catcher in flight acknowledges, once. -/
lemma acknowledge {i : ℕ} (h : Landing s) (hsized : ∀ r ∈ s.reads, r.Sized)
    (hs : s.acknowledge i = some s') : Landing s' := by
  unfold ReadSession.acknowledge at hs
  split at hs
  · rename_i x hx
    split at hs
    · rename_i hcond
      obtain ⟨hsize, hleft, hnot⟩ := hcond
      cases hs
      -- A read that has not been executed wants all of its bytes.
      have hfresh : ¬ x.Fresh := by
        rintro ⟨hdest, -⟩
        rw [PendingRead.left, hdest, List.length_nil] at hleft
        omega
      have hlanded : ¬ x.Landed := by
        rintro ⟨-, hacked⟩
        rw [hnot] at hacked
        cases hacked
      cases h with
      | idle pre post hpre hpost =>
          rcases List.mem_append.1 (List.mem_of_getElem? hx) with hmem | hmem
          · exact absurd (hpre x hmem) hlanded
          · exact absurd (hpost x hmem) hfresh
      | flight pre r post wire hpre hpost hdata hacked =>
          have hr : r.Sized := hsized r (by simp)
          rcases getElem?_append_cons_cases hx with hmem | ⟨rfl, rfl⟩ | ⟨-, hmem⟩
          · exact absurd (hpre x hmem) hlanded
          · have hnil : wire = [] := by
              rw [hr.left_eq hdata] at hleft
              exact List.length_eq_zero_iff.1 hleft
            simp only [set_length_append, hnot]
            exact Landing.flight pre { x with acked := true } post wire hpre hpost hdata
              fun _ => hnil
          · exact absurd (hpost x hmem) hfresh
    · cases hs
  · cases hs

/-- The worker is done with the read in flight. -/
lemma resume (h : Landing s) (hs : s.resume = some s') : Landing s' := by
  unfold ReadSession.resume at hs
  split at hs
  · rename_i hcond
    cases hs
    cases h with
    | idle pre post hpre hpost => cases hcond.1
    | flight pre r post wire hpre hpost hdata hacked =>
        have hr : r.acked = true := by
          by_contra hr
          have hpos := hcond.2
          simp [hr] at hpos
        have hdest : r.dest = r.data := by
          rw [hacked hr, List.append_nil] at hdata
          exact hdata
        have hidle := Landing.idle (pre ++ [r]) post (fun x hx => ?_) hpost
        · rw [List.append_assoc, List.singleton_append, List.length_append,
            List.length_singleton] at hidle
          simpa [hr, hacked hr] using hidle
        · rcases List.mem_append.1 hx with hx | hx
          · exact hpre x hx
          · rw [List.mem_singleton.1 hx]
            exact ⟨hdest, hr⟩
  · cases hs

/-! ## Where the reads land -/

/-- With one read in flight at a time, bytes reach the buffer they are for. -/
lemma dest_eq (h : Landing s) (hsized : ∀ r ∈ s.reads, r.Sized) :
    ∀ r ∈ s.reads, r.left = 0 → r.dest = r.data := by
  have hfresh : ∀ r ∈ s.reads, r.Fresh → r.left ≠ 0 := by
    rintro r hr ⟨hdest, -⟩
    have hpos := (hsized r hr).1
    rw [PendingRead.left, (hsized r hr).size, hdest, List.length_nil]
    omega
  intro x hx hleft
  cases h with
  | idle pre post hpre hpost =>
      rcases List.mem_append.1 hx with hmem | hmem
      · exact (hpre x hmem).dest
      · exact absurd hleft (hfresh x hx (hpost x hmem))
  | flight pre r post wire hpre hpost hdata hacked =>
      rcases List.mem_append.1 hx with hmem | hmem
      · exact (hpre x hmem).dest
      · rcases List.mem_cons.1 hmem with rfl | hmem
        · rw [(hsized x hx).left_eq hdata] at hleft
          rw [List.length_eq_zero_iff.1 hleft, List.append_nil] at hdata
          exact hdata
        · exact absurd hleft (hfresh x hx (hpost x hmem))

/-- As long as a read is not over somebody moves. -/
lemma landed_of_atRest (h : Landing s) (hsized : ∀ r ∈ s.reads, r.Sized) (hrest : s.AtRest) :
    ∀ r ∈ s.reads, r.dest = r.data := by
  cases h with
  | idle pre post hpre hpost =>
      cases post with
      | nil =>
          rw [List.append_nil]
          exact fun r hr => (hpre r hr).dest
      | cons r post =>
          have hr : r.Sized := hsized r (by simp)
          have hpos : r.data.length ≠ 0 := by
            have := hr.1
            omega
          have hexec := hrest .exec fun data => by simp
          simp only [readSession, ReadSession.exec, getElem?_length_append, hr.size,
            if_neg hpos] at hexec
          cases hexec
  | flight pre r post wire hpre hpost hdata hacked =>
      exfalso
      have hr : r.Sized := hsized r (by simp)
      by_cases hwire : wire = []
      · have hleft : r.left = 0 := by rw [hr.left_eq hdata, hwire, List.length_nil]
        cases hr' : r.acked with
        | true =>
            have hresume := hrest .resume fun data => by simp
            simp [readSession, ReadSession.resume, hr'] at hresume
        | false =>
            have hsize : r.size ≠ 0 := by
              have hpos := hr.1
              rw [hr.size]
              omega
            have hack := hrest (.acknowledge pre.length) fun data => by simp
            simp only [readSession, ReadSession.acknowledge, getElem?_length_append] at hack
            rw [if_pos ⟨hsize, hleft, hr'⟩] at hack
            cases hack
      · have hpos : 0 < wire.length := List.length_pos_iff.2 hwire
        have hreceive := hrest (.receive pre.length 1) fun data => by simp
        simp only [readSession, ReadSession.receive, getElem?_length_append] at hreceive
        rw [if_pos ⟨Nat.one_pos, (hr.left_eq hdata).symm ▸ hpos, hpos⟩] at hreceive
        cases hreceive

end Landing

/-- What is kept of a session whose catchers take turns. -/
structure InOrder (s : ReadSession) : Prop where
  landing : Landing s
  sized : ∀ r ∈ s.reads, r.Sized

lemma forall_mem_set {α : Type*} {p : α → Prop} {l : List α} {i : ℕ} {a : α}
    (h : ∀ x ∈ l, p x) (ha : p a) : ∀ x ∈ l.set i a, p x := by
  intro x hx
  rcases List.mem_or_eq_of_mem_set hx with hx | rfl
  · exact h x hx
  · exact ha

lemma InOrder.step {s s' : ReadSession} {l : ReadStep} (h : InOrder s) (hturn : s.InTurn l)
    (hs : readSession.step s l = some s') : InOrder s' := by
  cases l with
  | enqueueReadBuffer data =>
      cases hs
      refine ⟨h.landing.enqueueReadBuffer data, fun r hr => ?_⟩
      rcases List.mem_append.1 hr with hr | hr
      · exact h.sized r hr
      · rw [List.mem_singleton.1 hr]
        exact hturn
  | exec =>
      refine ⟨h.landing.exec h.sized hs, ?_⟩
      simp only [readSession, ReadSession.exec] at hs
      split at hs
      · split at hs
        · cases hs
        · cases hs
          exact h.sized
      · cases hs
  | receive i n =>
      refine ⟨h.landing.receive h.sized hturn hs, ?_⟩
      simp only [readSession, ReadSession.receive] at hs
      split at hs
      · rename_i r hr
        split at hs
        · cases hs
          exact forall_mem_set h.sized (h.sized r (List.mem_of_getElem? hr))
        · cases hs
      · cases hs
  | acknowledge i =>
      refine ⟨h.landing.acknowledge h.sized hs, ?_⟩
      simp only [readSession, ReadSession.acknowledge] at hs
      split at hs
      · rename_i r hr
        split at hs
        · cases hs
          exact forall_mem_set h.sized (h.sized r (List.mem_of_getElem? hr))
        · cases hs
      · cases hs
  | resume =>
      refine ⟨h.landing.resume hs, ?_⟩
      simp only [readSession, ReadSession.resume] at hs
      split at hs
      · cases hs
        exact h.sized
      · cases hs

/-- As long as the catchers take turns, each buffer ends up with the bytes of its own read. -/
theorem reads_land {ls : List ReadStep} {s : ReadSession}
    (h : readSession.exec ReadSession.init ls = some s)
    (hturns : readSession.AllSteps ReadSession.InTurn ReadSession.init ls) : s.Landed := by
  have hinit : InOrder ReadSession.init :=
    ⟨Landing.idle [] [] (by simp) (by simp), by simp [ReadSession.init]⟩
  have horder : InOrder s :=
    readSession.invariant_of_allSteps hinit (fun _ _ _ hs hturn hstep => hs.step hturn hstep)
      hturns h
  exact ⟨horder.landing.dest_eq horder.sized, horder.landing.landed_of_atRest horder.sized⟩

/-- Two reads, their catchers one after the other. -/
def readsInTurn : List ReadStep :=
  [.enqueueReadBuffer [1, 2], .enqueueReadBuffer [3], .exec, .receive 0 1, .receive 0 1,
    .acknowledge 0, .resume, .exec, .receive 1 1, .acknowledge 1, .resume]

/-- Both land. -/
theorem readsInTurn_land :
    ∃ s, readSession.exec ReadSession.init readsInTurn = some s ∧ s.Landed ∧
      s.reads.map PendingRead.dest = [[1, 2], [3]] := by
  have hrun : (readSession.exec ReadSession.init readsInTurn).map
      (fun s => s.reads.map PendingRead.dest) = some [[1, 2], [3]] := by decide +kernel
  obtain ⟨s, hs, hdest⟩ := Option.map_eq_some_iff.1 hrun
  exact ⟨s, hs, reads_land hs (readSession.allSteps_of_checkSteps (by decide +kernel)), hdest⟩

/-- The second catcher is scheduled first, twice over. -/
def readsSwapped : List ReadStep :=
  [.enqueueReadBuffer [1], .enqueueReadBuffer [2], .exec, .receive 1 1, .acknowledge 1, .resume,
    .exec, .receive 0 1, .acknowledge 0, .resume]

/-- Each buffer has the byte of the other read. -/
theorem swapped_reads :
    ∃ s, readSession.exec ReadSession.init readsSwapped = some s ∧ ¬ s.Landed := by
  have hrun : (readSession.exec ReadSession.init readsSwapped).map ReadSession.reads =
      some [⟨[1], [2], true⟩, ⟨[2], [1], true⟩] := by decide +kernel
  obtain ⟨s, hs, hreads⟩ := Option.map_eq_some_iff.1 hrun
  refine ⟨s, hs, fun hlanded => ?_⟩
  have hmem : (⟨[1], [2], true⟩ : PendingRead) ∈ s.reads := by
    rw [hreads]
    simp
  exact absurd (hlanded.1 _ hmem (by decide)) (by decide)

end ElasticFramework
