import ElasticFramework.Construction.ElasticIO
import ElasticFramework.Properties.Devices

/-!
# The array accesses of `init` and `run`

Both loop over the connected nodes, whose number the first call has found.  The counters of
`CreateBuffer` are three, the entries of `work_item` ten, and the arrays of an `ElasticIO` as many
as its own level; so no access is out of bounds exactly when no more than three nodes were
connected, and no later `ElasticIO` has fewer levels than there are nodes (`launches_iff`).
-/

namespace ElasticFramework

namespace ElasticClient

/-! ## A level -/

lemma createBuffer_some {memId : List ℕ} {level : ℕ} (h : level < memId.length) :
    ∃ id memId', createBuffer memId level = some (id, memId') ∧
      memId'.length = memId.length := by
  rw [createBuffer, List.getElem?_eq_getElem h]
  exact ⟨_, _, rfl, List.length_set⟩

lemma createBuffer_none {memId : List ℕ} {level : ℕ} (h : memId.length ≤ level) :
    createBuffer memId level = none := by
  rw [createBuffer, List.getElem?_eq_none h]
  rfl

lemma bindEntries_some {kernelVector : List ℕ} {level : ℕ} (hkernel : level < kernelVector.length)
    (i : ℕ) (es : List IOEntry) {memId : List ℕ} (hmem : level < memId.length) :
    ∃ es' memId' args, bindEntries kernelVector level i es memId = some (es', memId', args) ∧
      es'.length = es.length ∧ memId'.length = memId.length := by
  induction es generalizing i memId with
  | nil => exact ⟨_, _, _, rfl, rfl, rfl⟩
  | cons e es ih =>
      obtain ⟨id, memId₁, hcreate, hlength⟩ := createBuffer_some hmem
      obtain ⟨es', memId₂, args, hbind, hes, hlength'⟩ := ih (i + 1) (hlength ▸ hmem)
      refine ⟨{ e with clmem := some id } :: es', memId₂, (kernelVector[level], i, id) :: args,
        ?_, by simp [hes], hlength'.trans hlength⟩
      simp [bindEntries, hcreate, hbind, List.getElem?_eq_getElem hkernel]

lemma bindEntries_none {kernelVector memId : List ℕ} {level : ℕ}
    (h : kernelVector.length ≤ level ∨ memId.length ≤ level) (i : ℕ) {es : List IOEntry}
    (hes : 0 < es.length) : bindEntries kernelVector level i es memId = none := by
  obtain _ | ⟨e, es⟩ := es
  · exact absurd hes (lt_irrefl 0)
  rcases h with h | h
  · cases hcreate : createBuffer memId level with
    | none => simp [bindEntries, hcreate]
    | some x => simp [bindEntries, hcreate, List.getElem?_eq_none h]
  · simp [bindEntries, createBuffer_none h]

/-- The sizes of the arrays, none of which changes. -/
structure Setup.Sized (level : ℕ) (s : Setup) : Prop where
  length_input : s.io.input.length = level
  length_output : s.io.output.length = level
  four : ∀ v ∈ s.io.input, 4 ≤ v.length
  length_memId : s.memId.length = 3
  length_workItem : s.workItem.length = 10

variable {readInt : ℕ → ℤ} {kernelVector : List ℕ} {s : Setup} {levels level : ℕ}

/-- The level has an entry in each array. -/
def Fits (kernelVector : List ℕ) (levels level : ℕ) : Prop :=
  level < levels ∧ level < 3 ∧ level < kernelVector.length

lemma initLevel_some (hs : s.Sized levels) (h : Fits kernelVector levels level) :
    ∃ s', initLevel readInt kernelVector s level = some s' ∧ s'.Sized levels := by
  obtain ⟨hlevel, hthree, hkernel⟩ := h
  have hin : level < s.io.input.length := hs.length_input ▸ hlevel
  have hout : level < s.io.output.length := hs.length_output ▸ hlevel
  have hwork : level < s.workItem.length := by
    rw [hs.length_workItem]
    omega
  have hfour : 4 ≤ s.io.input[level].length := hs.four _ (List.getElem_mem hin)
  obtain ⟨inputs, memId₁, args₁, hbind₁, hinputs, hmem₁⟩ :=
    bindEntries_some hkernel 0 s.io.input[level] (hs.length_memId ▸ hthree)
  have hcounter : level < memId₁.length := by
    rw [hmem₁, hs.length_memId]
    exact hthree
  obtain ⟨outputs, memId₂, args₂, hbind₂, houtputs, hmem₂⟩ :=
    bindEntries_some hkernel inputs.length s.io.output[level] hcounter
  have hthird : 3 < inputs.length := by omega
  refine ⟨{
      io := { s.io with
        input := s.io.input.set level inputs
        output := s.io.output.set level outputs }
      memId := memId₂
      workItem := s.workItem.set level
        (readInt inputs[3].address * readInt (inputs[3].address + 4) % 2 ^ 64).toNat
      args := s.args ++ args₁ ++ args₂ }, ?_, ?_⟩
  · simp [initLevel, hbind₁, hbind₂, hin, hout, hthird, hwork]
  · exact {
      length_input := List.length_set.trans hs.length_input
      length_output := List.length_set.trans hs.length_output
      four := fun v hv => by
        rcases List.mem_or_eq_of_mem_set hv with hv | rfl
        · exact hs.four v hv
        · exact hthird
      length_memId := hmem₂.trans (hmem₁.trans hs.length_memId)
      length_workItem := List.length_set.trans hs.length_workItem }

lemma initLevel_none (hs : s.Sized levels) (h : ¬ Fits kernelVector levels level) :
    initLevel readInt kernelVector s level = none := by
  by_cases hin : level < s.io.input.length
  · have hbind : bindEntries kernelVector level 0 s.io.input[level] s.memId = none := by
      refine bindEntries_none ?_ 0 (lt_of_lt_of_le (by decide) (hs.four _ (List.getElem_mem hin)))
      rw [hs.length_memId]
      rw [hs.length_input] at hin
      by_contra! hlt
      exact h ⟨hin, hlt.2, hlt.1⟩
    simp [initLevel, hin, hbind]
  · simp [initLevel, hin]

/-! ## `init` and `run` -/

/-- The loop of `init` over the levels, as a machine. -/
def levelMachine (readInt : ℕ → ℤ) (kernelVector : List ℕ) : Machine Setup ℕ where
  step := initLevel readInt kernelVector

lemma foldlM_initLevel (s : Setup) (l : List ℕ) :
    l.foldlM (initLevel readInt kernelVector) s =
      (levelMachine readInt kernelVector).exec s l := by
  induction l generalizing s with
  | nil => rfl
  | cons level l ih =>
      rw [List.foldlM_cons, Machine.exec_cons]
      exact congrArg _ (funext ih)

lemma forall_fits_iff {n : ℕ} (hkernel : n ≤ kernelVector.length) :
    (∀ level ∈ List.range n, Fits kernelVector levels level) ↔ n ≤ 3 ∧ n ≤ levels := by
  simp only [List.mem_range, Fits]
  constructor
  · intro h
    obtain _ | n := n
    · simp
    · exact ⟨(h n n.lt_succ_self).2.1, (h n n.lt_succ_self).1⟩
  · rintro ⟨hthree, hlevels⟩ level hlevel
    omega

/-- A client after `init` with `n` nodes. -/
structure Client.Sized (n : ℕ) (c : Client) : Prop where
  cnNum : c.cnNum = n
  kernelVector : n ≤ c.kernelVector.length
  workItem : c.workItem.length = 10
  io : ∃ io, c.io = some io ∧ n ≤ io.input.length ∧ n ≤ io.output.length

lemma runLevel_some {c : Client} {io : ElasticIO} (hin : level < io.input.length)
    (hkernel : level < c.kernelVector.length) (hwork : level < c.workItem.length)
    (hout : level < io.output.length) : ∃ r, runLevel c io level = some r := by
  simp [runLevel, hin, hkernel, hwork, hout]

lemma run_some {n : ℕ} {c : Client} (hc : c.Sized n) (hn : n ≤ 3) : ∃ r, run c = some r := by
  obtain ⟨io, hio, hin, hout⟩ := hc.io
  have hlevels : ∀ l : List ℕ, (∀ level ∈ l, level < n) →
      ∃ r, l.mapM (runLevel c io) = some r := by
    intro l hl
    induction l with
    | nil => exact ⟨[], rfl⟩
    | cons level l ih =>
        obtain ⟨hlevel, hrest⟩ := List.forall_mem_cons.1 hl
        obtain ⟨r, hr⟩ := runLevel_some (hlevel.trans_le hin) (hlevel.trans_le hc.kernelVector)
          (hc.workItem ▸ hlevel.trans_le (hn.trans (by decide))) (hlevel.trans_le hout)
        obtain ⟨rs, hrs⟩ := ih hrest
        exact ⟨r :: rs, by simp [hr, hrs]⟩
  obtain ⟨r, hr⟩ := hlevels (List.range c.cnNum) fun level hlevel =>
    hc.cnNum ▸ List.mem_range.1 hlevel
  exact ⟨r, by simp [run, hio, hr]⟩

/-- A process whose first `GetDevices` has counted `n` nodes. -/
structure Process.Ready (n : ℕ) (p : Process) : Prop where
  devices : ∃ d, p.devices = some d ∧ d.totalCn = n
  memId : p.memId.length = 3
  workItem : ∀ c, (p.client c).workItem.length = 10

variable {net : Network} {n : ℕ} {p : Process} {l : ℕ × PreparedIO}

/-- What the loop of `init` starts from. -/
lemma sized_start (hp : p.Ready n) (c : ℕ) (io : PreparedIO) :
    Setup.Sized io.io.level ⟨io.io, p.memId, (p.client c).workItem, p.args⟩ where
  length_input := io.length_input
  length_output := io.length_output
  four := io.four
  length_memId := hp.memId
  length_workItem := hp.workItem c

lemma length_le_kernelVector (p : Process) (c : ℕ) :
    n ≤ ((p.client c).kernelVector ++ List.range n).length := by
  simp

lemma launches_some (hp : p.Ready n) (h : n ≤ 3 ∧ n ≤ l.2.io.level) :
    ∃ p', (launches net readInt).step p l = some p' ∧ p'.Ready n := by
  obtain ⟨c, io⟩ := l
  obtain ⟨d, hd, rfl⟩ := hp.devices
  obtain ⟨s, hs, hsized⟩ := (levelMachine readInt _).exec_of_enabled
    (fun s level hs => initLevel_some hs) (sized_start hp c io)
    ((forall_fits_iff (length_le_kernelVector p c)).2 h)
  rw [← foldlM_initLevel] at hs
  let client : Client :=
    { kernelVector := (p.client c).kernelVector ++ List.range d.totalCn
      io := some s.io
      workItem := s.workItem
      cnNum := d.totalCn }
  have hclient : client.Sized d.totalCn :=
    { cnNum := rfl
      kernelVector := length_le_kernelVector p c
      workItem := hsized.length_workItem
      io := ⟨s.io, rfl, hsized.length_input ▸ h.2, hsized.length_output ▸ h.2⟩ }
  obtain ⟨r, hr⟩ := run_some hclient h.1
  let p' : Process :=
    { devices := some d
      memId := s.memId
      client := Function.update p.client c client
      args := s.args }
  have hinit : init net readInt p c io.io = some p' := by
    simp [init, getDevices, hd, hs, p', client]
  have hrun : run (p'.client c) = some r := by
    rw [show p'.client c = client from Function.update_self c client p.client]
    exact hr
  refine ⟨p', by simp [launches, hinit, hrun], ⟨d, rfl, rfl⟩, hsized.length_memId, ?_⟩
  intro c'
  by_cases hc : c' = c
  · subst hc
    simpa [p', client] using hsized.length_workItem
  · simpa [p', Function.update_of_ne hc] using hp.workItem c'

lemma launches_none (hp : p.Ready n) (h : ¬ (n ≤ 3 ∧ n ≤ l.2.io.level)) :
    (launches net readInt).step p l = none := by
  obtain ⟨c, io⟩ := l
  obtain ⟨d, hd, rfl⟩ := hp.devices
  have hloop : (levelMachine readInt ((p.client c).kernelVector ++ List.range d.totalCn)).exec
      ⟨io.io, p.memId, (p.client c).workItem, p.args⟩ (List.range d.totalCn) = none := by
    rw [Option.eq_none_iff_forall_ne_some]
    intro s hs
    refine h ((forall_fits_iff (length_le_kernelVector p c)).1 ?_)
    exact Machine.forall_enabled_of_exec _ (I := Setup.Sized io.io.level)
      (fun s level hs => initLevel_some hs) (fun s level hs => initLevel_none hs)
      (sized_start hp c io) hs
  rw [← foldlM_initLevel] at hloop
  simp [launches, init, getDevices, hd, hloop]

/-- The nodes connected by the first of the calls: those whose main connection was made. -/
def connected (net : Network) : List (ℕ × PreparedIO) → ℕ
  | [] => 0
  | l :: _ => (rounds net l.2.io.level).countP established

/-- The first call does what it would do if the nodes had been counted before. -/
lemma exec_first (net : Network) (readInt : ℕ → ℤ) (l : ℕ × PreparedIO)
    (ls : List (ℕ × PreparedIO)) :
    ∃ p : Process, p.Ready (connected net (l :: ls)) ∧
      (launches net readInt).exec Process.init (l :: ls) =
        (launches net readInt).exec p (l :: ls) := by
  have hcount : (firstGetDevices net l.2.io.level).totalCn = connected net (l :: ls) := by
    rw [firstGetDevices_eq]
    exact length_flatMap_made _
  exact ⟨{ Process.init with devices := some (firstGetDevices net l.2.io.level) },
    ⟨⟨_, rfl, hcount⟩, rfl, fun _ => rfl⟩, rfl⟩

/-- **Bounds.**  The calls of `init`, each followed by `run`, access no array out of bounds exactly
when the first of them has connected no more than three nodes, and no `ElasticIO` has fewer levels
than nodes were connected. -/
theorem launches_iff (net : Network) (readInt : ℕ → ℤ) (calls : List (ℕ × PreparedIO)) :
    (∃ p, (launches net readInt).exec Process.init calls = some p) ↔
      connected net calls ≤ 3 ∧ ∀ l ∈ calls, connected net calls ≤ l.2.io.level := by
  cases calls with
  | nil => simp [connected]
  | cons l ls =>
      obtain ⟨p₀, hready, hfirst⟩ := exec_first net readInt l ls
      rw [hfirst]
      constructor
      · rintro ⟨p, hp⟩
        have hall := Machine.forall_enabled_of_exec _ (fun p l hp => launches_some hp)
          (fun p l hp => launches_none hp) hready hp
        exact ⟨(hall l List.mem_cons_self).1, fun m hm => (hall m hm).2⟩
      · rintro ⟨hthree, hlevels⟩
        obtain ⟨p, hp, -⟩ := Machine.exec_of_enabled (launches net readInt)
          (fun p l hp => launches_some hp) hready fun m hm => ⟨hthree, hlevels m hm⟩
        exact ⟨p, hp⟩

/-- Nodes that can all be reached. -/
def reachable : Network where
  attempt := fun _ => ⟨true, true, true⟩
  dispatcher := some fun _ => [49, 48, 46, 48, 46, 48, 46, 50]

/-- A kernel of four levels, with four inputs and no output on each of them. -/
def fourLevels : PreparedIO where
  io :=
    { level := 4
      input := List.replicate 4 (List.replicate 4 ⟨0, 4, none⟩)
      output := List.replicate 4 [] }
  level_pos := by decide
  length_input := rfl
  length_output := rfl
  four := by decide

/-- The fourth node has no counter in `CreateBuffer`. -/
theorem no_fourth_counter :
    ¬ ∀ net readInt calls, ∃ p, (launches net readInt).exec Process.init calls = some p := by
  intro h
  obtain ⟨p, hp⟩ := h reachable (fun _ => 1) [(0, fourLevels)]
  obtain ⟨p₀, hready, hfirst⟩ := exec_first reachable (fun _ => 1) (0, fourLevels) []
  have hfour : connected reachable [(0, fourLevels)] = 4 := by decide
  rw [hfirst, Machine.exec_cons, launches_none hready (by simp [hfour])] at hp
  exact absurd hp (by simp)

end ElasticClient

end ElasticFramework
