import ElasticFramework.Construction.Devices

/-!
# The connections that `GetDevices` leaves

A round connects to one address and registers on what has come of it.  As the three vectors grow
by their own successes, and the counter with the main connections, what a call leaves behind is
read off its rounds (`firstGetDevices_eq`): the counter and the messages are those of the main
connections (`getDevices_count`), and the vectors agree as far as the main one goes only if the
successes do (`aligned_iff`).
-/

namespace ElasticFramework

namespace ElasticClient

/-- An address that is tried, and how the attempts come out. -/
abbrev Round := List UInt8 × Attempt

/-- The rounds of the first call: the local node, and then the addresses of the dispatcher. -/
def rounds (net : Network) (levelCnt : ℕ) : List Round :=
  (localIP, net.attempt 0) ::
    ((askDispatcher net (if (net.attempt 0).main then levelCnt - 1 else levelCnt)).zipIdx 1).map
      fun x => (x.1, net.attempt x.2)

/-- The connection, if there is one, that a round makes. -/
def made (port : ℤ) (p : Attempt → Bool) (r : Round) : List SocketIOClient :=
  if 0 < r.1.length ∧ p r.2 = true then [⟨r.1, port⟩] else []

lemma made_cases (port : ℤ) (p : Attempt → Bool) (r : Round) :
    made port p r = [] ∨ made port p r = [⟨r.1, port⟩] := by
  unfold made
  split
  · exact Or.inr rfl
  · exact Or.inl rfl

lemma connection_snd (port : ℤ) (connVector : List SocketIOClient) (no : ℕ)
    (p : Attempt → Bool) (r : Round) :
    (connection port connVector no r.1 (p r.2)).2 = connVector ++ made port p r := by
  unfold connection made
  split <;> simp

namespace Devices

variable {s : Devices}

/-- Connect to a node and register with it. -/
def round (s : Devices) (r : Round) : Devices := (s.connect r.1 r.2).register

lemma current_eq (s : Devices) : s.current = s.main[s.totalCn]? := by
  simp [current, getConnection, connection]

lemma connect_eq (s : Devices) (r : Round) :
    s.connect r.1 r.2 =
      { s with
        main := s.main ++ made kCNPort Attempt.main r
        nonBlocking := s.nonBlocking ++ made kCNNonBlockingPort Attempt.nonBlocking r
        finish := s.finish ++ made kCNFinishPort Attempt.finish r } := by
  rw [connect, getConnection, getNonBlockingConnection, getFinishConnection, connection_snd,
    connection_snd, connection_snd]

/-- When all main connections have been registered with, there is none to register with. -/
lemma register_none (h : s.main.length ≤ s.totalCn) : s.register = s := by
  rw [register, current_eq, List.getElem?_eq_none h]

lemma register_some (h : s.totalCn < s.main.length) :
    s.register = { s with sent := s.sent ++ [(s.totalCn, regMsg)], totalCn := s.totalCn + 1 } := by
  rw [register, current_eq, List.getElem?_eq_getElem h]

/-- What is left behind by rounds: the connections they make, and a message on each main one. -/
def ofRounds (l : List Round) : Devices where
  main := l.flatMap (made kCNPort Attempt.main)
  nonBlocking := l.flatMap (made kCNNonBlockingPort Attempt.nonBlocking)
  finish := l.flatMap (made kCNFinishPort Attempt.finish)
  totalCn := (l.flatMap (made kCNPort Attempt.main)).length
  sent := (List.range (l.flatMap (made kCNPort Attempt.main)).length).map fun i => (i, regMsg)

lemma ofRounds_round (l : List Round) (r : Round) : (ofRounds l).round r = ofRounds (l ++ [r]) := by
  rw [round, connect_eq]
  rcases made_cases kCNPort Attempt.main r with hmade | hmade
  · rw [register_none]
    · simp [ofRounds, hmade]
    · simp [ofRounds, hmade]
  · rw [register_some]
    · simp [ofRounds, hmade, List.range_succ]
    · simp [ofRounds, hmade]

lemma foldl_round (l : List Round) : l.foldl round init = ofRounds l := by
  induction l using List.reverseRecOn with
  | nil => rfl
  | append_singleton l r ih =>
      rw [List.foldl_append, ih]
      exact ofRounds_round l r

end Devices

/-- The first call goes through its rounds. -/
lemma firstGetDevices_eq (net : Network) (levelCnt : ℕ) :
    firstGetDevices net levelCnt = Devices.ofRounds (rounds net levelCnt) := by
  have hlocal : (Devices.init.connect localIP (net.attempt 0)).current.isSome =
      (net.attempt 0).main := by
    rw [Devices.current_eq, Devices.connect_eq Devices.init (localIP, net.attempt 0)]
    cases hmain : (net.attempt 0).main <;> simp [Devices.init, made, localIP, hmain]
  rw [← Devices.foldl_round, rounds, List.foldl_cons, List.foldl_map, firstGetDevices, hlocal]
  rfl

/-! ## The counter -/

/-- The round makes a main connection. -/
def established (r : Round) : Bool := decide (0 < r.1.length) && r.2.main

lemma length_made (r : Round) :
    (made kCNPort Attempt.main r).length = if established r then 1 else 0 := by
  unfold made established
  split <;> simp_all

lemma length_flatMap_made (l : List Round) :
    (l.flatMap (made kCNPort Attempt.main)).length = l.countP established := by
  induction l with
  | nil => rfl
  | cons r l ih =>
      rw [List.flatMap_cons, List.length_append, ih, length_made, List.countP_cons, Nat.add_comm]

/-- A node is asked for in place of the local one only if that cannot be reached. -/
lemma countP_rounds_le (net : Network) {levelCnt : ℕ} (h : 1 ≤ levelCnt) :
    (rounds net levelCnt).countP established ≤ levelCnt := by
  have hlength : ∀ n, (((askDispatcher net n).zipIdx 1).map fun x => (x.1, net.attempt x.2)).countP
      established ≤ n := by
    intro n
    refine List.countP_le_length.trans (le_of_eq ?_)
    simp [askDispatcher]
  rw [rounds, List.countP_cons]
  cases hmain : (net.attempt 0).main with
  | true =>
      have hrest := hlength (levelCnt - 1)
      simp only [established, hmain, Bool.and_true, if_true] at hrest ⊢
      split <;> omega
  | false =>
      have hrest := hlength levelCnt
      simpa [established, hmain] using hrest

/-- **The device count.**  The first `GetDevices` returns the number of main connections it has
made, which is no more than it was asked for, and has sent one `kReg` message on each of them. -/
theorem getDevices_count (net : Network) {levelCnt : ℕ} (h : 1 ≤ levelCnt) :
    let s := firstGetDevices net levelCnt
    s.totalCn = (rounds net levelCnt).countP established ∧ s.main.length = s.totalCn ∧
      s.totalCn ≤ levelCnt ∧ s.sent = (List.range s.main.length).map fun i => (i, regMsg) := by
  intro s
  have hs : s = Devices.ofRounds (rounds net levelCnt) := firstGetDevices_eq net levelCnt
  have hcount : s.totalCn = (rounds net levelCnt).countP established := by
    rw [hs]
    exact length_flatMap_made _
  refine ⟨hcount, by rw [hs]; rfl, ?_, by rw [hs]; rfl⟩
  rw [hcount]
  exact countP_rounds_le net h

/-- Two nodes, both of them reached. -/
def twoNodes : Network where
  attempt := fun _ => ⟨true, true, true⟩
  dispatcher := some fun _ => [49, 48, 46, 48, 46, 48, 46, 50]

theorem getDevices_count_two :
    let s := firstGetDevices twoNodes 2
    s.totalCn = (rounds twoNodes 2).countP established ∧ s.main.length = s.totalCn ∧
      s.totalCn ≤ 2 ∧ s.sent = (List.range s.main.length).map fun i => (i, regMsg) :=
  getDevices_count twoNodes (by decide)

/-- The message has room in its buffer; the node takes it for a registration with weight zero. -/
example : message zeroed .reg [] = some regMsg ∧
    message zeroed .reg [leBytes 8 0] = some regMsg := by
  decide

/-! ## The vectors -/

/-- The main, the non-blocking and the finish connection of every device are there and lead to the
same node. -/
def Devices.Aligned (s : Devices) : Prop :=
  ∀ i < s.totalCn, ∃ ip, (s.main[i]?).map SocketIOClient.ip = some ip ∧
    (s.nonBlocking[i]?).map SocketIOClient.ip = some ip ∧
      (s.finish[i]?).map SocketIOClient.ip = some ip

/-- The rounds that try to connect: an empty address is passed over. -/
def tried (net : Network) (levelCnt : ℕ) : List Round :=
  (rounds net levelCnt).filter fun r => 0 < r.1.length

/-- The addresses with a connection of a kind, in the order in which they were tried. -/
def reached (p : Attempt → Bool) (l : List Round) : List (List UInt8) :=
  (l.filter fun r => p r.2).map Prod.fst

/-- Up to the last entry that passes the one test, the two tests agree. -/
def Agree {β : Type*} (p q : β → Bool) (l : List β) : Prop :=
  ∀ pre r post, l = pre ++ r :: post → (r :: post).any p = true → p r = q r

section Agree

variable {β γ : Type*} {p q : β → Bool}

lemma agree_nil : Agree p q [] := by
  intro pre r post h
  simp at h

lemma agree_cons {r : β} {l : List β} :
    Agree p q (r :: l) ↔ ((r :: l).any p = true → p r = q r) ∧ Agree p q l := by
  constructor
  · intro h
    exact ⟨h [] r l rfl, fun pre x post hsplit => h (r :: pre) x post (by rw [hsplit]; rfl)⟩
  · rintro ⟨hr, hl⟩ pre x post hsplit hany
    cases pre with
    | nil =>
        cases hsplit
        exact hr hany
    | cons y pre =>
        cases hsplit
        exact hl pre x post rfl hany

/-- Tests that nothing passes agree. -/
lemma agree_of_filter_eq_nil {l : List β} (h : l.filter p = []) : Agree p q l := by
  rintro pre r post rfl hany
  have hnone : ∀ x ∈ r :: post, ¬ p x = true := fun x hx =>
    List.filter_eq_nil_iff.1 h x (List.mem_append_right _ hx)
  obtain ⟨x, hx, hp⟩ := List.any_eq_true.1 hany
  exact absurd hp (hnone x hx)

/-- Of distinct values, those passing one test are the first of those passing the other exactly
when the tests agree up to the last that passes the one. -/
lemma filter_prefix_iff_agree {f : β → γ} {l : List β} (h : (l.map f).Nodup) :
    (l.filter p).map f <+: (l.filter q).map f ↔ Agree p q l := by
  induction l with
  | nil => exact iff_of_true (List.prefix_refl _) agree_nil
  | cons r l ih =>
      rw [List.map_cons, List.nodup_cons] at h
      have hnot : ∀ (t : β → Bool) (post : List γ), ¬ f r :: post <+: (l.filter t).map f := by
        intro t post hfront
        have hmem := hfront.subset (List.mem_cons_self ..)
        obtain ⟨x, hx, heq⟩ := List.mem_map.1 hmem
        exact h.1 (heq ▸ List.mem_map_of_mem (List.mem_filter.1 hx).1)
      rw [agree_cons]
      cases hp : p r <;> cases hq : q r
      · simp [hp, hq, ih h.2]
      · -- The second list starts with a value that is not in the first.
        rw [List.filter_cons_of_neg (by simp [hp]), List.filter_cons_of_pos hq, List.map_cons]
        constructor
        · intro hfront
          have hnil : l.filter p = [] := by
            cases hfilter : l.filter p with
            | nil => rfl
            | cons x m =>
                rw [hfilter, List.map_cons, List.cons_prefix_cons] at hfront
                have hx : x ∈ l := (List.mem_filter.1 (hfilter ▸ List.mem_cons_self ..)).1
                exact absurd (List.mem_map_of_mem hx) (hfront.1 ▸ h.1)
          refine ⟨fun hany => ?_, agree_of_filter_eq_nil hnil⟩
          obtain ⟨x, hx, hpx⟩ := List.any_eq_true.1 hany
          rcases List.mem_cons.1 hx with rfl | hx
          · rw [hp] at hpx
            cases hpx
          · exact absurd hpx (List.filter_eq_nil_iff.1 hnil x hx)
        · rintro ⟨hany, -⟩
          have hnil : l.filter p = [] := by
            rw [List.filter_eq_nil_iff]
            intro x hx hpx
            have hfalse := hany (List.any_eq_true.2 ⟨x, List.mem_cons_of_mem _ hx, hpx⟩)
            cases hfalse
          rw [hnil]
          exact List.nil_prefix
      · rw [List.filter_cons_of_pos hp, List.filter_cons_of_neg (by simp [hq]), List.map_cons]
        exact iff_of_false (hnot q _) fun hagree => by simpa using hagree.1 (by simp [hp])
      · simp [hp, hq, ih h.2]

end Agree

/-- The vectors hold the connections that were reached. -/
lemma flatMap_made (port : ℤ) (p : Attempt → Bool) (l : List Round) :
    (l.flatMap (made port p)).map SocketIOClient.ip =
      reached p (l.filter fun r => 0 < r.1.length) := by
  induction l with
  | nil => rfl
  | cons r l ih =>
      rw [List.flatMap_cons, List.map_append, ih]
      unfold made reached
      by_cases hlength : 0 < r.1.length <;> cases hp : p r.2 <;> simp [hlength, hp]

/-- Three lists that agree as far as the first goes. -/
lemma getElem?_agree_iff {β : Type*} {l m n : List β} :
    (∀ i < l.length, ∃ x, l[i]? = some x ∧ m[i]? = some x ∧ n[i]? = some x) ↔
      l <+: m ∧ l <+: n := by
  rw [List.prefix_iff_getElem?, List.prefix_iff_getElem?]
  constructor
  · intro h
    refine ⟨fun i hi => ?_, fun i hi => ?_⟩
    all_goals
      obtain ⟨x, hl, hm, hn⟩ := h i hi
      rw [List.getElem?_eq_getElem hi, Option.some.injEq] at hl
      simpa [hl]
  · rintro ⟨hm, hn⟩ i hi
    exact ⟨l[i], List.getElem?_eq_getElem hi, hm i hi, hn i hi⟩

/-- **Alignment.**  The connections of every device lead to the same node if and only if the nodes
with a main connection are the first of those with a non-blocking and of those with a finish
connection; for distinct addresses, if up to the last main connection the three attempts on each
node come out alike. -/
theorem aligned_iff (net : Network) (levelCnt : ℕ) :
    let l := tried net levelCnt
    ((firstGetDevices net levelCnt).Aligned ↔
        reached Attempt.main l <+: reached Attempt.nonBlocking l ∧
          reached Attempt.main l <+: reached Attempt.finish l) ∧
      ((l.map Prod.fst).Nodup → ((firstGetDevices net levelCnt).Aligned ↔
        Agree (fun r => r.2.main) (fun r => r.2.nonBlocking) l ∧
          Agree (fun r => r.2.main) (fun r => r.2.finish) l)) := by
  intro l
  have haligned : (firstGetDevices net levelCnt).Aligned ↔
      reached Attempt.main l <+: reached Attempt.nonBlocking l ∧
        reached Attempt.main l <+: reached Attempt.finish l := by
    rw [firstGetDevices_eq, ← getElem?_agree_iff]
    simp only [Devices.Aligned, Devices.ofRounds, ← List.getElem?_map, flatMap_made]
    rw [← List.length_map SocketIOClient.ip, flatMap_made]
    rfl
  refine ⟨haligned, fun hnodup => ?_⟩
  rw [haligned, ← filter_prefix_iff_agree hnodup, ← filter_prefix_iff_agree hnodup]
  rfl

theorem aligned_iff_two : (firstGetDevices twoNodes 2).Aligned := by
  have hall : ∀ r ∈ tried twoNodes 2, r.2 = ⟨true, true, true⟩ := by decide
  refine ((aligned_iff twoNodes 2).2 (by decide)).2 ⟨?_, ?_⟩
  all_goals
    intro pre r post hsplit _
    dsimp only
    rw [hall r (by rw [hsplit]; simp)]

/-- The non-blocking connection to the local node fails. -/
def brokenLocal : Network where
  attempt := fun i => ⟨true, i ≠ 0, true⟩
  dispatcher := some fun _ => [49, 48, 46, 48, 46, 48, 46, 50]

/-- The first device has the non-blocking connection of the second. -/
theorem connections_shifted :
    ¬ ∀ (net : Network) (levelCnt : ℕ), (firstGetDevices net levelCnt).Aligned := by
  intro h
  obtain ⟨ip, hmain, hnonBlocking, -⟩ := h brokenLocal 2 0 (by decide)
  have hlocal : ((firstGetDevices brokenLocal 2).main[0]?).map SocketIOClient.ip =
      some localIP := by decide
  rw [hlocal] at hmain
  rw [← hmain] at hnonBlocking
  revert hnonBlocking
  decide

end ElasticClient

end ElasticFramework
