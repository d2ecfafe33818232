import ElasticFramework.Construction.ElasticIO

/-!
# `ElasticIO` as a table

An entry goes where it is meant to go only if every argument in front of it has been set: a number
past the end of the vector is not kept, and the entry is appended.  The test of the group lets the
number of levels pass, for which there is no vector.  So the two arrays are tables keyed by group
and argument for the sequences of calls that set the arguments of a group in their order and name
no such group (`table_iff`).
-/

namespace ElasticFramework

namespace ElasticIO

/-- What is stored under a key. -/
def entry (io : ElasticIO) (kind : IOKind) (group argNum : ℕ) : Option (ℕ × ℕ) :=
  ((io.table kind)[group]?.bind (·[argNum]?)).map fun e => (e.address, e.size)

/-- The call is for this key. -/
def SetCall.SetsKey (c : SetCall) (kind : IOKind) (group argNum : ℕ) : Prop :=
  c.kind = kind ∧ c.group = group ∧ c.argNum = argNum

instance (c : SetCall) (kind : IOKind) (group argNum : ℕ) :
    Decidable (c.SetsKey kind group argNum) :=
  inferInstanceAs (Decidable (_ ∧ _))

/-- What a table holds under a key: the buffer and the size of the last call for it. -/
def lastSet (calls : List SetCall) (kind : IOKind) (group argNum : ℕ) : Option (ℕ × ℕ) :=
  (calls.reverse.find? fun c => c.SetsKey kind group argNum).map fun c => (c.address, c.size)

/-- After the calls the entries are those of a table, no call has gone outside the arrays, and one
for a group that is not there has changed nothing. -/
def Tabulates (level : ℕ) (calls : List SetCall) : Prop :=
  ∃ io, machine.exec (new level) calls = some io ∧
    (∀ kind group argNum, group < level →
      io.entry kind group argNum = lastSet calls kind group argNum) ∧
    machine.AllSteps (fun io c => level ≤ c.group → machine.step io c = some io) (new level) calls

/-- A call that may follow the others: its group is not the number of levels, and if it is there,
the arguments in front of this one have been set. -/
def Follows (level : ℕ) (calls : List SetCall) (c : SetCall) : Prop :=
  c.group ≠ level ∧
    (c.group < level → ∀ k < c.argNum, ∃ d ∈ calls, d.SetsKey c.kind c.group k)

/-- The calls set the arguments of every group in their order. -/
def InOrder (level : ℕ) (calls : List SetCall) : Prop :=
  ∀ pre c post, calls = pre ++ c :: post → Follows level pre c

/-! ## One call -/

lemma lastSet_snoc (calls : List SetCall) (c : SetCall) (kind : IOKind) (group argNum : ℕ) :
    lastSet (calls ++ [c]) kind group argNum =
      if c.SetsKey kind group argNum then some (c.address, c.size)
      else lastSet calls kind group argNum := by
  unfold lastSet
  rw [List.reverse_append, List.reverse_singleton, List.singleton_append, List.find?_cons]
  split <;> simp_all

lemma lastSet_isSome_iff {calls : List SetCall} {kind : IOKind} {group argNum : ℕ} :
    (lastSet calls kind group argNum).isSome = true ↔ ∃ c ∈ calls, c.SetsKey kind group argNum := by
  simp [lastSet]

/-- Both arrays have a vector for each level. -/
def Shaped (level : ℕ) (io : ElasticIO) : Prop :=
  io.level = level ∧ ∀ kind, (io.table kind).length = level

lemma shaped_new (level : ℕ) : Shaped level (new level) := by
  refine ⟨rfl, fun kind => ?_⟩
  cases kind <;> exact List.length_replicate

/-- One of the arrays replaced. -/
def withTable (io : ElasticIO) : IOKind → List (List IOEntry) → ElasticIO
  | .input, t => { io with input := t }
  | .output, t => { io with output := t }

lemma table_withTable_self (io : ElasticIO) (kind : IOKind) (t : List (List IOEntry)) :
    (io.withTable kind t).table kind = t := by
  cases kind <;> rfl

lemma table_withTable_of_ne (io : ElasticIO) {kind kind' : IOKind} (t : List (List IOEntry))
    (h : kind' ≠ kind) : (io.withTable kind t).table kind' = io.table kind' := by
  cases kind <;> cases kind'
  · exact absurd rfl h
  · rfl
  · rfl
  · exact absurd rfl h

/-- The two setters are one. -/
lemma step_eq (io : ElasticIO) (c : SetCall) :
    machine.step io c =
      setIO io.level (io.table c.kind) c.group c.argNum c.address c.size >>=
        fun t => some (io.withTable c.kind t) := by
  obtain ⟨kind, group, argNum, address, size⟩ := c
  cases kind <;> rfl

/-- The three kinds of call: past the levels, at their number, and at one of them. -/
lemma step_cases {level : ℕ} {io : ElasticIO} (h : Shaped level io) (c : SetCall) :
    (level < c.group ∧ machine.step io c = some io) ∨
      (c.group = level ∧ machine.step io c = none) ∨
        ∃ v, c.group < level ∧ (io.table c.kind)[c.group]? = some v ∧
          machine.step io c = some (io.withTable c.kind ((io.table c.kind).set c.group
            (setEntry v c.argNum c.address c.size))) := by
  rw [step_eq, h.1, setIO]
  rcases Nat.lt_trichotomy level c.group with hlt | heq | hgt
  · rw [if_pos hlt]
    refine Or.inl ⟨hlt, ?_⟩
    cases c.kind <;> rfl
  · rw [if_neg (by omega), List.getElem?_eq_none (by rw [h.2]; omega)]
    exact Or.inr (Or.inl ⟨heq.symm, rfl⟩)
  · rw [if_neg (by omega)]
    obtain ⟨v, hv⟩ : ∃ v, (io.table c.kind)[c.group]? = some v :=
      ⟨_, List.getElem?_eq_getElem (by rw [h.2]; exact hgt)⟩
    rw [hv]
    exact Or.inr (Or.inr ⟨v, hgt, rfl, rfl⟩)

lemma shaped_of_step {level : ℕ} {io io' : ElasticIO} {c : SetCall} (h : Shaped level io)
    (hstep : machine.step io c = some io') : Shaped level io' := by
  rcases step_cases h c with ⟨-, heq⟩ | ⟨-, heq⟩ | ⟨v, -, -, heq⟩
  · rw [heq] at hstep
    cases hstep
    exact h
  · rw [heq] at hstep
    cases hstep
  · rw [heq] at hstep
    cases hstep
    refine ⟨by rw [← h.1]; cases c.kind <;> rfl, fun kind => ?_⟩
    by_cases hkind : kind = c.kind
    · rw [hkind, table_withTable_self, List.length_set, h.2]
    · rw [table_withTable_of_ne io _ hkind, h.2]

/-- Setting an entry that is next or there already. -/
lemma setEntry_of_le {v : List IOEntry} {argNum address size : ℕ} (h : argNum ≤ v.length) (k : ℕ) :
    ((setEntry v argNum address size)[k]?).map (fun e => (e.address, e.size)) =
      if k = argNum then some (address, size) else (v[k]?).map fun e => (e.address, e.size) := by
  unfold setEntry
  split
  · rename_i hlt
    rw [List.getElem?_modify]
    by_cases hk : k = argNum
    · simp [hk, hlt]
    · simp [hk, Ne.symm hk]
  · have heq : argNum = v.length := by omega
    rw [List.getElem?_append]
    by_cases hk : k = argNum
    · simp [hk, heq]
    · by_cases hlt : k < v.length
      · simp [hlt, hk]
      · rw [if_neg hlt, if_neg hk, List.getElem?_eq_none (by simp; omega),
          List.getElem?_eq_none (by omega)]

/-- An entry further on is put elsewhere. -/
lemma setEntry_of_lt {v : List IOEntry} {argNum address size : ℕ} (h : v.length < argNum) :
    (setEntry v argNum address size)[argNum]? = none := by
  rw [setEntry, if_neg (by omega), List.getElem?_eq_none]
  rw [List.length_append, List.length_singleton]
  omega

lemma entry_withTable {io : ElasticIO} {c : SetCall} {v : List IOEntry}
    (hv : (io.table c.kind)[c.group]? = some v) (kind : IOKind) (group argNum : ℕ) :
    (io.withTable c.kind ((io.table c.kind).set c.group
        (setEntry v c.argNum c.address c.size))).entry kind group argNum =
      if kind = c.kind ∧ group = c.group then
        ((setEntry v c.argNum c.address c.size)[argNum]?).map fun e => (e.address, e.size)
      else io.entry kind group argNum := by
  have hlt : c.group < (io.table c.kind).length := (List.getElem?_eq_some_iff.1 hv).1
  unfold entry
  by_cases hkind : kind = c.kind
  · by_cases hgroup : group = c.group
    · rw [if_pos ⟨hkind, hgroup⟩, hkind, hgroup, table_withTable_self,
        List.getElem?_set_self hlt, Option.bind_some]
    · rw [if_neg fun h => hgroup h.2, hkind, table_withTable_self,
        List.getElem?_set_ne (Ne.symm hgroup)]
  · rw [if_neg fun h => hkind h.1, table_withTable_of_ne io _ hkind]

/-! ## All calls -/

section Calls

variable {level : ℕ} {calls : List SetCall} {io : ElasticIO}

lemma shaped_of_exec (h : machine.exec (new level) calls = some io) : Shaped level io :=
  machine.invariant (shaped_new level) (fun _ _ _ hshaped hstep => shaped_of_step hshaped hstep) h

/-- In a table the vector of a group has an entry for each argument that was set. -/
lemma length_le_iff {c : SetCall} {v : List IOEntry}
    (hentries : ∀ kind group argNum, group < level →
      io.entry kind group argNum = lastSet calls kind group argNum)
    (hlt : c.group < level) (hv : (io.table c.kind)[c.group]? = some v) :
    c.argNum ≤ v.length ↔ ∀ k < c.argNum, ∃ d ∈ calls, d.SetsKey c.kind c.group k := by
  have hset : ∀ k, (∃ d ∈ calls, d.SetsKey c.kind c.group k) ↔ k < v.length := by
    intro k
    rw [← lastSet_isSome_iff, ← hentries c.kind c.group k hlt, entry, hv]
    simp
  simp only [hset]
  constructor
  · intro hle k hk
    omega
  · intro h
    by_contra hgt
    exact absurd (h v.length (by omega)) (lt_irrefl _)

/-- One more call keeps the table if and only if it follows the others. -/
lemma tabulates_snoc_iff (h : Tabulates level calls) (c : SetCall) :
    Tabulates level (calls ++ [c]) ↔ Follows level calls c := by
  obtain ⟨io, hexec, hentries, hsteps⟩ := h
  have hshaped := shaped_of_exec hexec
  have hsnoc : Tabulates level (calls ++ [c]) ↔ ∃ io', machine.step io c = some io' ∧
      (∀ kind group argNum, group < level →
        io'.entry kind group argNum = lastSet (calls ++ [c]) kind group argNum) ∧
        (level ≤ c.group → machine.step io c = some io) := by
    unfold Tabulates
    simp only [machine.exec_snoc_iff, machine.allSteps_snoc_iff, hexec, Option.some.injEq,
      exists_eq_left', forall_eq', hsteps, true_and]
  rw [hsnoc]
  rcases step_cases hshaped c with ⟨hgt, hstep⟩ | ⟨heq, hstep⟩ | ⟨v, hlt, hv, hstep⟩
  · refine iff_of_true ⟨io, hstep, fun kind group argNum hgroup => ?_, fun _ => hstep⟩
      ⟨by omega, fun h => by omega⟩
    rw [lastSet_snoc, if_neg, hentries kind group argNum hgroup]
    rintro ⟨-, hc, -⟩
    omega
  · refine iff_of_false ?_ fun h => h.1 heq
    rintro ⟨io', hio', -⟩
    rw [hstep] at hio'
    cases hio'
  · have hfollows : Follows level calls c ↔ c.argNum ≤ v.length := by
      rw [length_le_iff hentries hlt hv, Follows]
      exact ⟨fun h => h.2 hlt, fun h => ⟨by omega, fun _ => h⟩⟩
    rw [hfollows]
    constructor
    · -- The entry that was set is there, so it is not further on than the next one.
      rintro ⟨io', hio', hentries', -⟩
      rw [hstep, Option.some.injEq] at hio'
      have hentry := hentries' c.kind c.group c.argNum hlt
      rw [← hio', entry_withTable hv, if_pos ⟨rfl, rfl⟩, lastSet_snoc,
        if_pos ⟨rfl, rfl, rfl⟩] at hentry
      by_contra hgt
      rw [setEntry_of_lt (by omega)] at hentry
      cases hentry
    · intro hle
      refine ⟨_, hstep, fun kind group argNum hgroup => ?_, fun h => by omega⟩
      rw [entry_withTable hv, lastSet_snoc, setEntry_of_le hle]
      by_cases hkey : kind = c.kind ∧ group = c.group
      · obtain ⟨rfl, rfl⟩ := hkey
        rw [if_pos ⟨rfl, rfl⟩, ← hentries _ _ _ hgroup, entry, hv, Option.bind_some]
        simp only [SetCall.SetsKey, true_and]
        by_cases harg : argNum = c.argNum
        · rw [if_pos harg, if_pos harg.symm]
        · rw [if_neg harg, if_neg (Ne.symm harg)]
      · rw [if_neg hkey, if_neg, hentries _ _ _ hgroup]
        rintro ⟨hkind, hgroup', -⟩
        exact hkey ⟨hkind.symm, hgroup'.symm⟩

lemma tabulates_nil (level : ℕ) : Tabulates level [] := by
  refine ⟨new level, rfl, fun kind group argNum _ => ?_, machine.allSteps_nil _ _⟩
  have hempty : ∀ v ∈ (new level).table kind, v = [] := by
    intro v hv
    cases kind <;> exact List.eq_of_mem_replicate hv
  rw [entry]
  cases hv : ((new level).table kind)[group]? with
  | none => rfl
  | some v =>
      rw [hempty v (List.mem_of_getElem? hv)]
      rfl

lemma inOrder_snoc_iff {c : SetCall} :
    InOrder level (calls ++ [c]) ↔ InOrder level calls ∧ Follows level calls c := by
  constructor
  · intro h
    refine ⟨fun pre d post hsplit => h pre d (post ++ [c]) (by rw [hsplit]; simp), ?_⟩
    exact h calls c [] rfl
  · rintro ⟨h, hc⟩ pre d post hsplit
    rcases List.eq_nil_or_concat post with rfl | ⟨post, e, rfl⟩
    · obtain ⟨rfl, heq⟩ := List.append_inj' hsplit rfl
      cases heq
      exact hc
    · have hsplit' : calls ++ [c] = (pre ++ d :: post) ++ [e] := by simpa using hsplit
      obtain ⟨rfl, -⟩ := List.append_inj' hsplit' rfl
      exact h pre d post rfl

end Calls

/-- **`ElasticIO` is a table**, at every point of a sequence of calls, if and only if the calls set
the arguments of every group in their order and none of them names the group behind the last. -/
theorem table_iff (level : ℕ) (calls : List SetCall) :
    (∀ pre, pre <+: calls → Tabulates level pre) ↔ InOrder level calls := by
  induction calls using List.reverseRecOn with
  | nil =>
      refine iff_of_true (fun pre hpre => ?_) fun pre c post h => by simp at h
      rw [List.prefix_nil.1 hpre]
      exact tabulates_nil level
  | append_singleton calls c ih =>
      rw [inOrder_snoc_iff, ← ih]
      constructor
      · intro h
        have hcalls := h calls (List.prefix_append _ _)
        exact ⟨fun pre hpre => h pre (hpre.trans (List.prefix_append _ _)),
          (tabulates_snoc_iff hcalls c).1 (h _ (List.prefix_refl _))⟩
      · rintro ⟨h, hc⟩ pre hpre
        rcases List.prefix_concat_iff.1 hpre with rfl | hpre
        · exact (tabulates_snoc_iff (h calls (List.prefix_refl _)) c).2 hc
        · exact h pre hpre

/-- The second argument is set before the first. -/
def backwards : List SetCall :=
  [{ kind := .input, group := 0, argNum := 1, address := 8, size := 4 },
    { kind := .input, group := 0, argNum := 0, address := 16, size := 4 }]

/-- It is overwritten by the first. -/
theorem argument_overwritten :
    ¬ ∀ (level : ℕ) (calls : List SetCall), Tabulates level calls := by
  intro h
  obtain ⟨io, hexec, hentries, -⟩ := h 1 backwards
  have hlast : lastSet backwards .input 0 1 = some (8, 4) := by decide
  have hentry := hentries .input 0 1 (by decide)
  have hio : machine.exec (new 1) backwards =
      some ⟨1, [[⟨16, 4, none⟩]], [[]]⟩ := by decide
  rw [hio, Option.some.injEq] at hexec
  rw [hlast, ← hexec] at hentry
  revert hentry
  decide

end ElasticIO

end ElasticFramework
